import Coalesce.Proofs.Dispatch.Covering
import Coalesce.Proofs.Scheduler.Clock
import Coalesce.Proofs.Scheduler.Late

/-!
# Batches are handed over at once

* `Scheduler.settles`        the dispatcher comes to rest on its own, whatever is outstanding;
* `Scheduler.Timed.taken`    a window is taken at the reading of its flush;
* `Scheduler.Timed.starts`   one call is started for a batch, with all its requests;
* `Scheduler.Timed.handed`   the batches that calls are started for are those that were formed, each
                             once and at its reading.
-/

namespace Coalesce

namespace Scheduler

/-! ## coming to rest -/

section
variable (c : Scheduler) (now : Int) (transport : Transport)

/-- The next batch is served and the queue stays as it is, or nothing is left at all. -/
theorem serve_next {s : State} {batch : List Pending} {rest : List (List Pending)}
    (working : s.worker = .working (batch :: rest)) :
    (c.serve now transport s).1.worker = .working rest ∧
        (c.serve now transport s).1.queue = s.queue ∨
      (c.serve now transport s).1.Rests := by
  let v : Serving := ⟨now, transport, batch⟩
  show (c.serve v.now v.transport s).1.worker = .working rest ∧
    (c.serve v.now v.transport s).1.queue = s.queue ∨ (c.serve v.now v.transport s).1.Rests
  cases hprogress : v.progress c with
  | running exchange =>
    rw [c.serve_running working hprogress]
    exact Or.inl ⟨rfl, rfl⟩
  | ended outcome =>
    by_cases halive : outcome = .crashed
    · rw [c.serve_crashed working (halive ▸ hprogress)]
      exact Or.inr ⟨rfl, rfl⟩
    · rw [c.serve_ended working halive hprogress]
      exact Or.inl ⟨rfl, rfl⟩

/-- Some events of the dispatcher alone. -/
def Dispatching (es : List Event) : Prop := ∀ e ∈ es, e = .take now ∨ e = .serve now transport

theorem serves_all {s : State} {batches : List (List Pending)}
    (working : s.worker = .working batches) :
    ∃ es, Dispatching now transport es ∧
      ((c.run s es).1.worker = .working [] ∧ (c.run s es).1.queue = s.queue ∨
        (c.run s es).1.Rests) := by
  induction batches generalizing s with
  | nil => exact ⟨[], fun e he => absurd he List.not_mem_nil, Or.inl ⟨working, rfl⟩⟩
  | cons batch rest ih =>
    rcases c.serve_next now transport working with ⟨hrest, hqueue⟩ | hrests
    · obtain ⟨es, hes, hstate⟩ := ih hrest
      rw [hqueue] at hstate
      exact ⟨.serve now transport :: es, List.forall_mem_cons.mpr ⟨Or.inr rfl, hes⟩, hstate⟩
    · exact ⟨[.serve now transport], List.forall_mem_singleton.mpr (Or.inr rfl), Or.inr hrests⟩

/-- Without any call coming back, the dispatcher comes to rest. -/
theorem settles {s : State} {batches : List (List Pending)}
    (working : s.worker = .working batches) :
    ∃ es, Dispatching now transport es ∧ (c.run s es).1.Rests := by
  generalize hqueue : s.queue = queue
  induction queue generalizing s batches with
  | nil =>
    obtain ⟨es, hes, ⟨hworker, hsame⟩ | hrests⟩ := c.serves_all now transport working
    · refine ⟨es, hes, hsame.trans hqueue, ?_⟩
      rw [hworker]
      rfl
    · exact ⟨es, hes, hrests⟩
  | cons f queue ih =>
    obtain ⟨es, hes, ⟨hworker, hsame⟩ | hrests⟩ := c.serves_all now transport working
    · have htake := c.take_next now hworker (hsame.trans hqueue)
      obtain ⟨batches', hbatches, hnext⟩ : ∃ batches',
          (c.take now (c.run s es).1).1.worker = .working batches' ∧
          (c.take now (c.run s es).1).1.queue = queue := by
        rw [htake]
        split
        · exact ⟨_, hworker, rfl⟩
        · exact ⟨_, rfl, rfl⟩
      obtain ⟨more, hmore, hrests⟩ := ih hbatches hnext
      refine ⟨es ++ .take now :: more, ?_, ?_⟩
      · exact List.forall_mem_append.mpr ⟨hes, List.forall_mem_cons.mpr ⟨Or.inl rfl, hmore⟩⟩
      · rw [run_append]
        exact hrests
    · exact ⟨es, hes, hrests⟩

end

/-! ## at which reading -/

/-- the batches that calls are started for in a moment, one for each call -/
def Moment.handed (c : Scheduler) (m : Moment) : List (List Pending) :=
  (calls (c.step m.state m.event).2).map (·.2)

/-- the batches that calls were started for -/
def handedAt (c : Scheduler) (past : List (Nat × Moment)) : List (Nat × List Pending) :=
  stampedAll (Moment.handed c) past

section
variable {c : Scheduler} {wall : Nat → Int} {past : List (Nat × Moment)} {t : Nat} {s : State}

theorem Timed.at_moment (h : c.Timed wall past t s) {u : Nat} {m : Moment} (hm : (u, m) ∈ past) :
    ∃ first rest, past = first ++ (u, m) :: rest ∧ c.Timed wall first u m.state ∧
      m.event.Fits wall u m.state := by
  obtain ⟨first, rest, _, _, hpast, rfl, hrun, hfits⟩ := Clockwork.Run.at_moment h hm
  exact ⟨first, rest, hpast, hrun, hfits⟩

/-- A window that was flushed is taken at this reading. -/
theorem Timed.taken (h : c.Timed wall past t s) (calm : c.Calm past) (rests : s.Rests) {u : Nat}
    {f : Flush} (flushed : (u, f) ∈ c.flushesAt past) :
    ∃ m, (u, m) ∈ past ∧ Takes m (wall u) f := by
  rw [← (h.at_rest calm rests).1] at flushed
  obtain ⟨m, hm, htaking⟩ := mem_stamped.mp flushed
  obtain ⟨now, takes⟩ := taking?_eq_some htaking
  obtain ⟨_, _, _, _, hfits⟩ := h.at_moment hm
  exact ⟨m, hm, takes.on_clock hfits ▸ takes⟩

/-- A batch that is served is not empty, and there is time for it. -/
theorem Timed.in_time (h : c.Timed wall past t s) (calm : c.Calm past) {u : Nat} {m : Moment}
    (hm : (u, m) ∈ past) {v : Serving} (serving : m.serving? = some v) :
    v.batch ≠ [] ∧ ∃ limit, callTimeout c.target.timeout
      (earliestDeadline (v.batch.map (·.item))) v.now c.target.padding = .ok limit := by
  obtain ⟨first, rest, rfl, hrun, hfits⟩ := h.at_moment hm
  obtain ⟨hevent, others, hworking⟩ := serving?_eq_some serving
  obtain ⟨_, batches, hworker, hformed⟩ :=
    hrun.dispatched fun x hx => calm x (List.mem_append_left _ hx)
  obtain rfl : v.batch :: others = batches := Worker.working.inj (hworking.symm.trans hworker)
  -- its window was taken at the same reading
  have hmem : (u, v.batch) ∈ c.formedAt first := by
    rw [hformed]
    exact List.mem_append_right _ List.mem_cons_self
  obtain ⟨n, hn, hbatch⟩ := mem_stampedAll.mp hmem
  obtain ⟨now, f, takes⟩ := takes_of_formed hbatch
  obtain ⟨_, _, _, _, hfits'⟩ := hrun.at_moment hn
  have hnow : v.now = now := by
    rw [hevent] at hfits
    exact Eq.trans hfits (takes.on_clock hfits').symm
  rw [hnow]
  refine ⟨?_, takes.batch_in_time hbatch⟩
  rw [takes.formed] at hbatch
  exact c.batches_nonempty hbatch

/-- One call is started for a batch, and it answers for all its requests. -/
theorem Timed.starts (h : c.Timed wall past t s) (calm : c.Calm past)
    (covers : c.target.codec.Covers) {u : Nat} {m : Moment} (hm : (u, m) ∈ past) {v : Serving}
    (serving : m.serving? = some v) :
    ∃ call, calls (c.step m.state m.event).2 = [(call, v.batch)] ∧
      call.members = List.range v.batch.length := by
  obtain ⟨hsome, limit, hlimit⟩ := h.in_time calm hm serving
  obtain ⟨call, hmembers, hcall⟩ :=
    Target.start_covering covers (fun hnil => hsome (List.map_eq_nil_iff.mp hnil)) hlimit
  refine ⟨call, ?_, hmembers.trans (congrArg List.range (List.length_map _))⟩
  rw [(c.step_change m.state m.event).calls_eq, serving, Option.toList_some,
    List.flatMap_singleton]
  unfold Serving.calls Serving.called
  rw [hcall]
  rfl

theorem Timed.handed_served (h : c.Timed wall past t s) (calm : c.Calm past)
    (covers : c.target.codec.Covers) : c.handedAt past = servedAt past := by
  have heach : ∀ x ∈ past, (Moment.handed c x.2).map (x.1, ·)
      = ((x.2.serving?.map (·.batch)).map (x.1, ·)).toList := by
    intro x hx
    unfold Moment.handed
    cases hserving : x.2.serving? with
    | none =>
      rw [(c.step_change x.2.state x.2.event).calls_eq, hserving]
      rfl
    | some v =>
      obtain ⟨call, hcall, _⟩ := h.starts calm covers hx hserving
      rw [hcall]
      rfl
  unfold handedAt servedAt stampedAll stamped
  rw [List.flatMap_congr heach, List.filterMap_eq_flatMap_toList]

/-- The batches that calls are started for are those that are formed, each once and at its
reading. -/
theorem Timed.handed (h : c.Timed wall past t s) (calm : c.Calm past) (rests : s.Rests)
    (covers : c.target.codec.Covers) : c.handedAt past = c.formedAt past :=
  (h.handed_served calm covers).trans (h.at_rest calm rests).2

end

end Scheduler

end Coalesce
