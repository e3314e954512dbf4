import Coalesce.Proofs.Gateway.Order
import Coalesce.Proofs.Gateway.Results
import Coalesce.Proofs.Scheduler.Leaving

/-!
# Cancellation

* `Lane.Departs`        two lanes differ in nothing but that a caller has left one of them, after the
                        window with its request was cut;
* `Lane.Departs.step`, `Lane.Departs.run`
                        then they go on alike, but for the answer to this caller;
* `Lane.leaving`        a request whose caller leaves before its window is cut vanishes from it; a
                        caller that leaves later changes nothing for anybody else.
-/

namespace Coalesce

namespace Lane

/-! ## the scheduler, and the rest -/

def withScheduler (l : Lane) (s : Scheduler.State) : Lane := { l with scheduler := s }

/-- the requests sent alone whose callers stay -/
def Event.remaining (solos : List Solo) : Event → List Solo
  | .leave ticket => solos.filter fun s => s.request.ticket ≠ ticket
  | _ => solos

theorem step_scheduled (c : Scheduler) {e : Event} {e' : Scheduler.Event}
    (h : e.scheduled? = some e') (l : Lane) : l.step (.batched c) e
      = (⟨(c.step l.scheduler e').1, e.remaining l.solos⟩, (c.step l.scheduler e').2) := by
  cases e with
  | execute now transport p =>
    by_cases hp : p.item.isSubscription = true
    · have hnone : (Event.execute now transport p).scheduled? = none := if_pos hp
      rw [hnone] at h
      cases h
    · have hsome : (Event.execute now transport p).scheduled? = some (.submit p) := if_neg hp
      cases hsome.symm.trans h
      exact if_neg hp
  | resume ticket call outcome => cases h
  | leave ticket => cases h; rfl
  | scheduled e => cases h; rfl

/-- What is no event of the scheduler does not read it. -/
theorem step_alone (c : Scheduler) {e : Event} (h : e.scheduled? = none) (l : Lane)
    (s : Scheduler.State) : (l.withScheduler s).step (.batched c) e
      = ((l.step (.batched c) e).1.withScheduler s, (l.step (.batched c) e).2) := by
  cases e with
  | execute now transport p =>
    by_cases hp : p.item.isSubscription = true
    · have hstep : ∀ l : Lane, l.step (.batched c) (.execute now transport p)
          = l.sendAlone c.target now transport p := fun l => if_pos hp
      rw [hstep, hstep]
      unfold sendAlone
      dsimp only
      split <;> rfl
    · have hsome : (Event.execute now transport p).scheduled? = some (.submit p) := if_neg hp
      rw [hsome] at h
      cases h
  | resume ticket call outcome =>
    show (l.withScheduler s).resume c.target ticket call outcome
      = ((l.resume c.target ticket call outcome).1.withScheduler s,
          (l.resume c.target ticket call outcome).2)
    unfold resume
    have hsolos : (l.withScheduler s).solos = l.solos := rfl
    rw [hsolos]
    cases l.solos.find? fun s => s.request.ticket = ticket with
    | none => rfl
    | some solo =>
      dsimp only
      cases solo.exchange.resume c.target.codec call outcome <;> rfl
  | leave ticket => cases h
  | scheduled e => cases h

theorem run_append (r : Route) (l : Lane) (first second : List Event) :
    run r l (first ++ second) = ((run r (run r l first).1 second).1,
      (run r l first).2 ++ (run r (run r l first).1 second).2) := by
  induction first generalizing l with
  | nil => rfl
  | cons e rest ih =>
    show ((run r (l.step r e).1 (rest ++ second)).1,
      (l.step r e).2 ++ (run r (l.step r e).1 (rest ++ second)).2) = _
    rw [ih, ← List.append_assoc]
    rfl

/-! ## a caller that leaves later -/

/-- A caller has left one lane and, maybe, stays at the other; its window is cut. -/
structure Departs (ticket : Nat) (left : List Nat) (l : Lane) : Prop where
  scheduler : Scheduler.Departs ticket left l.scheduler
  cut : l.scheduler.Cut ticket
  batched : ∀ solo ∈ l.solos, solo.request.ticket ≠ ticket

def departed (l : Lane) (left : List Nat) : Lane := l.withScheduler (l.scheduler.departed left)

/-- who has left after an event -/
def Event.leavers (left : List Nat) (e : Event) : List Nat :=
  e.scheduled?.elim left (Scheduler.Event.leavers left)

section
variable {c : Scheduler} {l : Lane} {ticket : Nat} {left : List Nat}

theorem spares_conclude {u : Nat} (other : u ≠ ticket) (outcome : Outcome (List Json)) :
    [conclude u outcome].filter (Effect.spares ticket) = [conclude u outcome] := by
  refine List.filter_eq_self.mpr fun e he => ?_
  rw [List.mem_singleton.mp he]
  cases outcome with
  | crashed => rfl
  | _ => exact decide_eq_true other

theorem Change.spared {l' : Lane} {e : Event} {more : List Effect} (h : Change c l e l' more)
    (alone : e.scheduled? = none) (batched : ∀ solo ∈ l.solos, solo.request.ticket ≠ ticket)
    (other : ∀ p ∈ e.arrivals, p.ticket ≠ ticket) :
    more.filter (Effect.spares ticket) = more ∧
      ∀ solo ∈ l'.solos, solo.request.ticket ≠ ticket := by
  cases h with
  | scheduled _ e' same =>
    rw [alone] at same
    cases same
  | started now transport p =>
    refine ⟨spares_called _ _ _, fun solo hsolo => ?_⟩
    rcases List.mem_append.mp hsolo with hsolo | hsolo
    · exact batched solo hsolo
    · rw [List.mem_singleton.mp hsolo]
      exact other p (List.mem_singleton_self p)
  | ended now transport p =>
    refine ⟨?_, batched⟩
    rw [List.filter_append, spares_called, spares_conclude (other p (List.mem_singleton_self p))]
  | idle => exact ⟨rfl, batched⟩
  | resumed call outcome solo one others fewer =>
    refine ⟨rfl, fun solo' hsolo' => ?_⟩
    rcases List.mem_append.mp hsolo' with hsolo' | hsolo'
    · exact batched solo' (fewer.subset hsolo')
    · rw [List.mem_singleton.mp hsolo']
      exact batched solo one
  | finished call outcome solo one others fewer =>
    refine ⟨spares_conclude (batched solo one) _, fun solo' hsolo' => ?_⟩
    exact batched solo' (fewer.subset hsolo')

theorem scheduled_arrivals {e : Event} {e' : Scheduler.Event} (h : e.scheduled? = some e') :
    e.arrivals = e'.arrivals := by
  cases e with
  | execute now transport p =>
    unfold Event.scheduled? at h
    dsimp only at h
    split at h
    · cases h
    · cases h
      rfl
  | resume ticket call outcome => cases h
  | leave ticket => cases h; rfl
  | scheduled e => cases h; rfl

theorem remaining_sublist (e : Event) (solos : List Solo) : (e.remaining solos).Sublist solos := by
  cases e with
  | leave ticket => exact List.filter_sublist
  | _ => exact List.Sublist.refl _

theorem Departs.step (h : Departs ticket left l) (e : Event)
    (other : ∀ p ∈ e.arrivals, p.ticket ≠ ticket) :
    (l.departed left).step (.batched c) e
      = ((l.step (.batched c) e).1.departed (e.leavers left),
          (l.step (.batched c) e).2.filter (Effect.spares ticket)) ∧
      Departs ticket (e.leavers left) (l.step (.batched c) e).1 := by
  have change := step_change c l e
  cases hscheduled : e.scheduled? with
  | none =>
    obtain ⟨hspared, hbatched⟩ := change.spared hscheduled h.batched other
    have hleavers : e.leavers left = left := by
      unfold Event.leavers
      rw [hscheduled]
      rfl
    have hsame : (l.step (.batched c) e).1.scheduler = l.scheduler := by
      rcases change.sides with ⟨e', hsome, _⟩ | ⟨_, hsame⟩
      · cases hscheduled.symm.trans hsome
      · exact hsame
    rw [hleavers, hspared]
    unfold departed
    rw [step_alone c hscheduled, hsame]
    refine ⟨rfl, ?_, ?_, hbatched⟩
    · rw [hsame]
      exact h.scheduler
    · rw [hsame]
      exact h.cut
  | some e' =>
    have hleavers : e.leavers left = e'.leavers left := by
      unfold Event.leavers
      rw [hscheduled]
      rfl
    rw [scheduled_arrivals hscheduled] at other
    have hown : c.step (l.departed left).scheduler e' = _ :=
      Scheduler.step_departed h.scheduler h.cut e'
    rw [step_scheduled c hscheduled, step_scheduled c hscheduled, hown, hleavers]
    refine ⟨rfl, h.scheduler.step e', h.cut.step e' other, fun solo hsolo => ?_⟩
    exact h.batched solo ((remaining_sublist e l.solos).subset hsolo)

theorem Departs.run (h : Departs ticket left l) (es : List Event)
    (other : ∀ p ∈ es.flatMap Event.arrivals, p.ticket ≠ ticket) :
    (run (.batched c) (l.departed left) es).2
      = (run (.batched c) l es).2.filter (Effect.spares ticket) := by
  induction es generalizing l left with
  | nil => rfl
  | cons e rest ih =>
    rw [List.flatMap_cons] at other
    obtain ⟨hstep, hnext⟩ := h.step (c := c) e fun p hp => other p (List.mem_append_left _ hp)
    have hrest := ih hnext fun p hp => other p (List.mem_append_right _ hp)
    show ((l.departed left).step (.batched c) e).2
        ++ (Lane.run (.batched c) ((l.departed left).step (.batched c) e).1 rest).2
      = ((l.step (.batched c) e).2 ++ (Lane.run (.batched c) (l.step (.batched c) e).1 rest).2).filter
          (Effect.spares ticket)
    rw [hstep, hrest, List.filter_append]

end

/-! ## runs -/

theorem scheduled_left (c : Scheduler) {ticket : Nat} {l : Lane}
    (left : ticket ∈ l.scheduler.left) (es : List Event) :
    ∀ m ∈ scheduled (moments c l es), ticket ∈ m.state.left := by
  induction es generalizing l with
  | nil => exact fun m hm => absurd hm List.not_mem_nil
  | cons e rest ih =>
    have hnext : ticket ∈ (l.step (.batched c) e).1.scheduler.left := by
      rcases (step_change c l e).sides with ⟨e', _, _, hstate, _⟩ | ⟨_, hstate⟩
      · rw [hstate, Scheduler.step_left]
        cases e' with
        | leave u => exact List.mem_cons_of_mem _ left
        | _ => exact left
      · rw [hstate]
        exact left
    intro m hm
    have hcons : scheduled (moments c l (e :: rest))
        = scheduled [⟨l, e⟩] ++ scheduled (moments c (l.step (.batched c) e).1 rest) :=
      scheduled_append [⟨l, e⟩] _
    rw [hcons] at hm
    rcases List.mem_append.mp hm with hm | hm
    · obtain ⟨m', hm', hsome⟩ := List.mem_filterMap.mp hm
      rw [List.mem_singleton.mp hm'] at hsome
      obtain ⟨e', _, rfl⟩ := Option.map_eq_some_iff.mp hsome
      exact left
    · exact ih hnext m hm

section
variable {c : Scheduler} {past : List Moment} {l : Lane} {effects : List Effect}
  (h : History c past l effects) (fresh : ((arrivals past).map (·.ticket)).Nodup)
include h fresh

/-- A call for a queued request is one for a batch of the scheduler. -/
theorem History.queued_call {p : Pending} (queued : p ∈ Scheduler.arrivals (scheduled past))
    {x : Call × List Pending} (hx : x ∈ calls effects) (hpx : p ∈ x.2) :
    x.2 ∈ c.formed (scheduled past) := by
  obtain ⟨own, hown, hcalls, _⟩ := h.scheduler
  rcases List.mem_append.mp (hcalls.mem_iff.mp hx) with hx | hx
  · rw [hown.calls_eq] at hx
    obtain ⟨v, hv, hcall⟩ := List.mem_flatMap.mp hx
    obtain ⟨call, _, rfl⟩ := List.mem_map.mp hcall
    exact hown.served_formed hv
  · obtain ⟨v, hv, hcall⟩ := List.mem_flatMap.mp hx
    obtain ⟨call, _, rfl⟩ := List.mem_map.mp hcall
    have hnodup := ((arrivals_perm past).map (·.ticket)).nodup_iff.mp fresh
    rw [List.map_append] at hnodup
    have halone : p ∈ (sendings past).flatMap (·.batch) := List.mem_flatMap.mpr ⟨v, hv, hpx⟩
    exact absurd rfl ((List.nodup_append.mp hnodup).2.2 _ (List.mem_map_of_mem queued) _
      (List.mem_map_of_mem halone))

theorem History.queued_apart {p : Pending} (queued : p ∈ Scheduler.arrivals (scheduled past)) :
    ∀ solo ∈ l.solos, solo.request.ticket ≠ p.ticket := by
  intro solo hsolo heq
  obtain ⟨v, ship, hkept⟩ := h.alone solo hsolo
  have hnodup := ((arrivals_perm past).map (·.ticket)).nodup_iff.mp fresh
  rw [List.map_append] at hnodup
  have halone : solo.request ∈ (sendings past).flatMap (·.batch) := by
    refine List.mem_flatMap.mpr ⟨v, hkept.sent, ?_⟩
    rw [hkept.batch]
    exact List.mem_singleton_self _
  exact (List.nodup_append.mp hnodup).2.2 _ (List.mem_map_of_mem queued) _
    (List.mem_map_of_mem halone) heq.symm

end

/-- A caller that leaves after the window with its request was cut changes nothing but its own
answer. -/
theorem leaves_later (c : Scheduler) (first rest : List Event)
    (fresh : (((first ++ rest).flatMap Event.arrivals).map (·.ticket)).Nodup)
    {m : Scheduler.Moment} (one : m ∈ scheduled (moments c {} first)) {now : Int} {f : Flush}
    (takes : Scheduler.Takes m now f) {p : Pending} (hp : p ∈ f.items) :
    (run (.batched c) {} (first ++ .leave p.ticket :: rest)).2
      = (run (.batched c) {} first).2 ++
        (run (.batched c) (run (.batched c) {} first).1 rest).2.filter (Effect.spares p.ticket) := by
  rw [List.flatMap_append, List.map_append] at fresh
  obtain ⟨hfirst, _, hapart⟩ := List.nodup_append.mp fresh
  have h : History c (moments c {} first) (run (.batched c) {} first).1
    (run (.batched c) {} first).2 := history_run c first
  obtain ⟨own, hown, _⟩ := h.scheduler
  obtain ⟨hqueued, hcut⟩ : p ∈ Scheduler.arrivals (scheduled (moments c {} first)) ∧
      (run (.batched c) {} first).1.scheduler.Cut p.ticket := by
    refine hown.taken ?_ one takes hp
    rw [queued_moments]
    exact ((queued_sublist first).map _).nodup hfirst
  have hbatched : ∀ solo ∈ (run (.batched c) {} first).1.solos, solo.request.ticket ≠ p.ticket := by
    refine h.queued_apart ?_ hqueued
    rw [arrivals_moments]
    exact hfirst
  have hother : ∀ q ∈ rest.flatMap Event.arrivals, q.ticket ≠ p.ticket := by
    intro q hq heq
    rw [queued_moments] at hqueued
    exact hapart _ (List.mem_map_of_mem ((queued_sublist first).subset hqueued)) _
      (List.mem_map_of_mem hq) heq.symm
  rw [run_append]
  generalize (run (.batched c) {} first).1 = l at hcut hbatched ⊢
  have hdeparts : Departs p.ticket (p.ticket :: l.scheduler.left) l := by
    refine ⟨⟨List.mem_cons_self, fun u hu => ?_⟩, hcut, hbatched⟩
    rw [List.mem_cons]
    exact or_iff_right hu
  have hstep : l.step (.batched c) (.leave p.ticket)
      = (l.departed (p.ticket :: l.scheduler.left), []) := by
    have hsolos : (Event.leave p.ticket).remaining l.solos = l.solos :=
      List.filter_eq_self.mpr fun solo hsolo => decide_eq_true (hbatched solo hsolo)
    rw [step_scheduled c rfl, hsolos]
    rfl
  show _ ++ ((l.step (.batched c) (.leave p.ticket)).2
    ++ (run (.batched c) (l.step (.batched c) (.leave p.ticket)).1 rest).2) = _
  rw [hstep, List.nil_append, hdeparts.run rest hother]

/-- **Cancellation.**  Take any run of requests with different tickets at a target that batches.
A window that is taken holds requests in the order of arrival, with none left out; its batches are
those that the strategy cuts its live requests into, in the same order.  The only calls for its
requests are those for these batches, so there is none for a window with no live request.  A request
whose caller leaves before its window is taken, or whose window is never taken, is in no call.  If
one more caller leaves after its window was taken, the calls stay the same, and so do the answers to
all others. -/
theorem leaving (c : Scheduler) (es : List Event)
    (fresh : ((es.flatMap Event.arrivals).map (·.ticket)).Nodup) :
    let effects := (run (.batched c) {} es).2
    (∀ m ∈ scheduled (moments c {} es), ∀ now f, Scheduler.Takes m now f →
      let live := f.items.filter (c.live m.state.left now)
      f.items.IsInfix (queued es) ∧
      m.formed c = (c.settings.strategy.partition c.settings.maxSize (live.map (·.item))).map
        (fun b => b.indices.filterMap fun i => live[i]?) ∧
      (∀ x ∈ calls effects, ∀ p ∈ f.items, p ∈ x.2 → x.2 ∈ m.formed c ∧ p ∈ live) ∧
      (live = [] → ∀ x ∈ calls effects, ∀ p ∈ f.items, p ∉ x.2)) ∧
    (∀ first rest p, p ∈ queued es → es = first ++ .leave p.ticket :: rest →
      (∀ m ∈ scheduled (moments c {} first), ∀ now f, Scheduler.Takes m now f → p ∉ f.items) →
      ∀ x ∈ calls effects, p ∉ x.2) ∧
    ∀ first rest m now f, es = first ++ rest → m ∈ scheduled (moments c {} first) →
      Scheduler.Takes m now f → ∀ p ∈ f.items,
      let effects' := (run (.batched c) {} (first ++ .leave p.ticket :: rest)).2
      calls effects' = calls effects ∧
        ∀ ticket, ticket ≠ p.ticket → answersTo ticket effects' = answersTo ticket effects := by
  intro effects
  have h : History c (moments c {} es) (run (.batched c) {} es).1 effects := history_run c es
  have hfresh : ((arrivals (moments c {} es)).map (·.ticket)).Nodup := by
    rw [arrivals_moments]
    exact fresh
  obtain ⟨own, hown, _⟩ := h.scheduler
  have hown_fresh : ((Scheduler.arrivals (scheduled (moments c {} es))).map (·.ticket)).Nodup := by
    rw [queued_moments]
    exact ((queued_sublist es).map _).nodup fresh
  refine ⟨fun m one now f takes => ?_, fun first rest p hp hes hbefore x hx hpx => ?_,
    fun first rest m now f hes one takes p hp => ?_⟩
  · intro live
    have hpiece : f.items.IsInfix (queued es) := by
      obtain ⟨before, after, told, heq, hthen⟩ := hown.before one
      obtain ⟨queue, hqueue⟩ := takes.next
      have hwindow := hthen.windows_consecutive.1 f (by rw [hqueue]; exact List.mem_cons_self)
      rw [← queued_moments c {} es, heq, Scheduler.arrivals_append]
      exact hwindow.trans (List.prefix_append _ _).isInfix
    have hcalls : ∀ x ∈ calls effects, ∀ p ∈ f.items, p ∈ x.2 → x.2 ∈ m.formed c ∧ p ∈ live := by
      intro x hx p hp hpx
      have hformed : x.2 ∈ m.formed c :=
        hown.window_formed hown_fresh one takes hp
          (h.queued_call hfresh (hown.taken hown_fresh one takes hp).1 hx hpx) hpx
      refine ⟨hformed, (c.batches_perm live).mem_iff.mp ?_⟩
      rw [takes.formed_live] at hformed
      exact List.mem_flatten.mpr ⟨x.2, hformed, hpx⟩
    refine ⟨hpiece, takes.formed_live, hcalls, fun hnone x hx p hp hpx => ?_⟩
    have hlive := (hcalls x hx p hp hpx).2
    rw [hnone] at hlive
    exact absurd hlive List.not_mem_nil
  · rw [← queued_moments c {} es] at hp
    have hformed := h.queued_call hfresh hp hx hpx
    obtain ⟨m, hm, hbm⟩ := List.mem_flatMap.mp hformed
    obtain ⟨now, f, takes⟩ := Scheduler.takes_of_formed hbm
    obtain ⟨hitems, hwaits, _⟩ := takes.mem_formed.mp (List.mem_flatten.mpr ⟨x.2, hbm, hpx⟩)
    rw [hes, moments_append, scheduled_append] at hm
    rcases List.mem_append.mp hm with hm | hm
    · exact hbefore m hm now f takes hitems
    · have hcons : scheduled (moments c (run (.batched c) {} first).1 (.leave p.ticket :: rest))
          = ⟨(run (.batched c) {} first).1.scheduler, .leave p.ticket⟩ ::
            scheduled (moments c ((run (.batched c) {} first).1.step (.batched c)
              (.leave p.ticket)).1 rest) := rfl
      rw [hcons] at hm
      rcases List.mem_cons.mp hm with rfl | hm
      · cases takes.event
      · exact hwaits (scheduled_left c List.mem_cons_self rest m hm)
  · intro effects'
    have hboth : effects' = _ := leaves_later c first rest (hes ▸ fresh) one takes hp
    have hall : effects = (run (.batched c) {} first).2
        ++ (run (.batched c) (run (.batched c) {} first).1 rest).2 := by
      show (run (.batched c) {} es).2 = _
      rw [hes, run_append]
    rw [hboth, hall]
    refine ⟨?_, fun ticket hother => ?_⟩
    · rw [calls_append, calls_append, calls_spares]
    · rw [answersTo_append, answersTo_append, answersTo_spares hother]

/-- the caller of a mutation between two queries leaves, so that they travel together; then the caller
of the second one leaves, too -/
theorem leaving_between :
    let c : Scheduler := ⟨⟨"accounts", "http://accounts", none, .array, 0⟩,
      ⟨.byCaller, .array, 50, 3, 20⟩⟩
    let p (ticket : Nat) (kind : OperationKind) : Pending :=
      ⟨ticket, { request := default, kind, caller := default }, 0⟩
    let first : List Event := [.execute 0 .silent (p 0 .query), .execute 0 .silent (p 1 .mutation),
      .leave 1, .execute 0 .silent (p 2 .query), .scheduled (.take 0)]
    let rest : List Event := [.scheduled (.serve 0 .silent),
      .scheduled (.finish 0 0 (.done (.array [.null, .null])))]
    let items : List Pending := [p 0 .query, p 1 .mutation, p 2 .query]
    let m : Scheduler.Moment :=
      ⟨{ generation := 1, timers := [⟨0, 20⟩], queue := [⟨.size, items⟩], left := [1] }, .take 0⟩
    (((first ++ rest).flatMap Event.arrivals).map (·.ticket)).Nodup ∧
      m ∈ scheduled (moments c {} first) ∧ Scheduler.Takes m 0 ⟨.size, items⟩ ∧
      m.formed c = [[p 0 .query, p 2 .query]] ∧
      (∀ x ∈ calls (run (.batched c) {} (first ++ rest)).2, p 1 .mutation ∉ x.2) ∧
      calls (run (.batched c) {} (first ++ .leave 2 :: rest)).2
        = calls (run (.batched c) {} (first ++ rest)).2 ∧
      answersTo 0 (run (.batched c) {} (first ++ .leave 2 :: rest)).2 = [.ok .null] := by
  intro c p first rest items m
  have fresh : (((first ++ rest).flatMap Event.arrivals).map (·.ticket)).Nodup := by decide
  have moments_first : scheduled (moments c {} first)
      = (scheduled (moments c {} first)).dropLast ++ [m] := rfl
  have one : m ∈ scheduled (moments c {} first) := by
    rw [moments_first]
    exact List.mem_append_right _ (List.mem_singleton_self m)
  have takes : Scheduler.Takes m 0 ⟨.size, items⟩ := ⟨rfl, rfl, [], rfl⟩
  obtain ⟨_, hleaves, hlater⟩ := leaving c (first ++ rest) fresh
  have hpast : ∀ n ∈ scheduled (moments c {} [.execute 0 .silent (p 0 .query),
      .execute 0 .silent (p 1 .mutation)]), ∀ now f, Scheduler.Takes n now f →
      p 1 .mutation ∉ f.items := by
    intro n hn now f htakes
    have hsubmits : n.event = .submit (p 0 .query) ∨ n.event = .submit (p 1 .mutation) := by
      rcases List.mem_cons.mp hn with rfl | hn
      · exact Or.inl rfl
      · rw [List.mem_singleton.mp hn]
        exact Or.inr rfl
    rcases hsubmits with hevent | hevent <;> cases htakes.event.symm.trans hevent
  have hqueued : p 1 .mutation ∈ queued (first ++ rest) :=
    List.mem_cons_of_mem _ List.mem_cons_self
  have huncalled := hleaves _ _ (p 1 .mutation) hqueued rfl hpast
  have hp : p 2 .query ∈ items :=
    List.mem_cons_of_mem _ (List.mem_cons_of_mem _ (List.mem_singleton_self _))
  obtain ⟨hcalls, hothers⟩ := hlater first rest m 0 _ rfl one takes (p 2 .query) hp
  have hanswer : answersTo 0 (run (.batched c) {} (first ++ .leave 2 :: rest)).2 = [.ok .null] := by
    rw [hothers 0 (by decide)]
    rfl
  exact ⟨fresh, one, takes, rfl, huncalled, hcalls, hanswer⟩

end Lane

end Coalesce
