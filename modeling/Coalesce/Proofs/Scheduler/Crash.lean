import Coalesce.Proofs.Scheduler.Apart
import Coalesce.Proofs.Scheduler.Failure

/-!
# Dispatchers that crash

* `Scheduler.Gone`             what holds once a dispatcher is gone: nothing is formed and nothing is
                               served any more, and all that is told to others than those whose
                               calls are on their way is that no answer comes;
* `Scheduler.Gone.next`        every event keeps this;
* `Scheduler.History.last_served`
                               a batch that crashes when it is served is the last one;
* `Scheduler.History.lost`, `Scheduler.History.lost_later`
                               it takes all others with it that are not served yet, be they formed,
                               flushed, waiting or still to come.
-/

namespace Coalesce

namespace Scheduler

theorem answersTo_drop {c : Scheduler} {s : State} {ps : List Pending} {ticket : Nat}
    {result : Except Error Json} (h : result ∈ answersTo ticket (c.drop s ps)) :
    result = .error c.dropped := by
  have hanswer := mem_answersTo.mp h
  unfold drop at hanswer
  rw [answers_all] at hanswer
  obtain ⟨x, hx, hresult⟩ := List.mem_filterMap.mp hanswer
  obtain ⟨p, _, rfl⟩ := List.mem_map.mp hx
  unfold settle at hresult
  dsimp only at hresult
  split at hresult
  · cases hresult
  · cases hresult
    rfl

/-- What holds since a dispatcher is gone, when requests with some tickets wait for their calls. -/
structure Gone (c : Scheduler) (tickets : List Nat) (after : List Moment) (s : State)
    (more : List Effect) : Prop where
  worker : s.worker = .gone
  waits : ∀ d ∈ s.deliveries, ∀ p ∈ d.members, p.ticket ∈ tickets
  served : servings after = []
  formed : c.formed after = []
  told : ∀ ticket ∉ tickets, ∀ result ∈ answersTo ticket more, result = .error c.dropped

section
variable {c : Scheduler} {tickets : List Nat} {after : List Moment} {s : State}
  {more : List Effect}

theorem Gone.next (h : c.Gone tickets after s more) (e : Event) :
    c.Gone tickets (after ++ [⟨s, e⟩]) (c.step s e).1 (more ++ (c.step s e).2) := by
  have hchange := c.step_change s e
  generalize (c.step s e).1 = s' at hchange ⊢
  generalize (c.step s e).2 = now at hchange ⊢
  -- nothing is formed or served without a dispatcher
  have quiet : s'.worker = s.worker → (∀ d ∈ s'.deliveries, ∀ p ∈ d.members, p.ticket ∈ tickets) →
      Moment.serving? ⟨s, e⟩ = none → Moment.formed c ⟨s, e⟩ = [] →
      (∀ ticket ∉ tickets, ∀ result ∈ answersTo ticket now, result = .error c.dropped) →
      c.Gone tickets (after ++ [⟨s, e⟩]) s' (more ++ now) := by
    intro hworker hwaits hserving hformed htold
    refine ⟨hworker.trans h.worker, hwaits, ?_, ?_, fun ticket hticket result hresult => ?_⟩
    · rw [servings_quiet hserving]
      exact h.served
    · rw [formed_quiet hformed]
      exact h.formed
    · rw [answersTo_append] at hresult
      rcases List.mem_append.mp hresult with hresult | hresult
      · exact h.told ticket hticket result hresult
      · exact htold ticket hticket result hresult
  have working : ∀ {batches}, s.worker = .working batches →
      c.Gone tickets (after ++ [⟨s, e⟩]) s' (more ++ now) := by
    intro batches hworking
    rw [h.worker] at hworking
    cases hworking
  have silent : ∀ ticket ∉ tickets, ∀ result ∈ answersTo ticket [], result = .error c.dropped :=
    fun _ _ _ hresult => absurd hresult List.not_mem_nil
  cases hchange with
  | waits _ window =>
    exact quiet rfl h.waits (serving?_ofWindow window) (formed_ofWindow window) silent
  | flushed _ _ _ hworking => exact working hworking
  | lost _ window =>
    exact quiet rfl h.waits (serving?_ofWindow window) (formed_ofWindow window)
      fun _ _ _ hresult => answersTo_drop hresult
  | left ticket => exact quiet rfl h.waits rfl rfl silent
  | taken _ _ _ hworking => exact working hworking
  | idle _ served formed => exact quiet rfl h.waits served formed silent
  | started _ _ _ _ hworking => exact working hworking
  | ended _ _ _ _ hworking => exact working hworking
  | crashed _ _ _ _ hworking => exact working hworking
  | resumed id call outcome d found exchange =>
    refine quiet rfl (fun d' hd' p hp => ?_) rfl rfl silent
    obtain ⟨x, hx, rfl⟩ := List.mem_map.mp hd'
    refine h.waits x hx p ?_
    split at hp
    · exact hp
    · exact hp
  | finished id call outcome d found result =>
    refine quiet rfl (fun d' hd' => h.waits d' (List.mem_of_mem_filter hd')) rfl rfl ?_
    intro ticket hticket r hr
    have hothers := outside_ending c s (h.waits d (List.mem_of_find?_eq_some found)) result
    rw [← answersTo_outside hticket, hothers] at hr
    exact absurd hr List.not_mem_nil

end

/-- the requests that wait for their calls -/
def State.onTheirWay (s : State) : List Pending := s.deliveries.flatMap Delivery.members

section
variable {c : Scheduler} {before after : List Moment} {m : Moment} {s : State}
  {effects : List Effect} {v : Serving}

theorem step_crashed (serving : m.serving? = some v) (crashed : v.progress c = .ended .crashed) :
    ∃ calls, answers calls = [] ∧ c.step m.state m.event =
      ({ m.state with worker := .gone, queue := [], nextDelivery := m.state.nextDelivery + 1 },
        calls ++ c.drop m.state
          (m.state.worker.batches.flatten ++ m.state.queue.flatMap Flush.items)) := by
  obtain ⟨hevent, rest, hworking⟩ := serving?_eq_some serving
  rw [hevent, hworking]
  exact ⟨_, answers_called _ _, serve_crashed c hworking crashed⟩

theorem History.gone_since (h : c.History (before ++ m :: after) s effects)
    (serving : m.serving? = some v) (crashed : v.progress c = .ended .crashed) :
    ∃ told more, c.History before m.state told ∧
      effects = told ++ ((c.step m.state m.event).2 ++ more) ∧
      c.Gone (m.state.onTheirWay.map (·.ticket)) after s more := by
  induction after using List.reverseRecOn generalizing s effects with
  | nil =>
    obtain ⟨told, htold, rfl, rfl⟩ := h.last
    obtain ⟨calls, _, hstep⟩ := step_crashed serving crashed
    refine ⟨told, [], htold, ?_, ?_⟩
    · rw [List.append_nil]
    · rw [hstep]
      refine ⟨rfl, fun d hd p hp => ?_, rfl, rfl, fun _ _ _ hr => absurd hr List.not_mem_nil⟩
      exact List.mem_map.mpr ⟨p, List.mem_flatMap.mpr ⟨d, hd, hp⟩, rfl⟩
  | append_singleton after n ih =>
    have hsplit : before ++ m :: (after ++ [n]) = (before ++ m :: after) ++ [n] := by
      rw [List.append_assoc]
      rfl
    rw [hsplit] at h
    obtain ⟨earlier, hearlier, rfl, rfl⟩ := h.last
    obtain ⟨told, more, htold, rfl, hgone⟩ := ih hearlier
    refine ⟨told, more ++ (c.step n.state n.event).2, htold, ?_, hgone.next n.event⟩
    rw [List.append_assoc, List.append_assoc]

/-- Requests in the window, and those still to come, are told nothing yet and have no calls on their
way. -/
theorem History.untouched {past : List Moment} (h : c.History past s effects)
    {coming : List Pending} (fresh : ((arrivals past ++ coming).map (·.ticket)).Nodup) {p : Pending}
    (hp : p ∈ s.pending ++ coming) :
    answersTo p.ticket effects = [] ∧ p.ticket ∉ s.onTheirWay.map (·.ticket) := by
  obtain ⟨out, hperm, hanswers, _⟩ := h.custody
  have hall : (arrivals past ++ coming).Perm ((s.pending ++ coming) ++
      ((s.onTheirWay ++ out.map Prod.fst) ++
        (s.queue.flatMap Flush.items ++ s.worker.batches.flatten))) := by
    refine Multiset.coe_eq_coe.mp ?_
    have hcame := Multiset.coe_eq_coe.mpr hperm
    simp only [State.held, State.onTheirWay, ← Multiset.coe_add] at hcame ⊢
    rw [hcame]
    abel
  have hnodup := (hall.map (·.ticket)).nodup_iff.mp fresh
  rw [List.map_append] at hnodup
  have hapart : ∀ q ∈ s.onTheirWay ++ out.map Prod.fst, p.ticket ≠ q.ticket := by
    intro q hq
    refine (List.nodup_append.mp hnodup).2.2 _ (List.mem_map.mpr ⟨p, hp, rfl⟩) _ ?_
    exact List.mem_map.mpr ⟨q, List.mem_append_left _ hq, rfl⟩
  constructor
  · refine List.eq_nil_iff_forall_not_mem.mpr fun result hresult => ?_
    have htold := mem_answersTo.mp hresult
    rw [hanswers] at htold
    obtain ⟨x, hx, hanswer⟩ := List.mem_filterMap.mp htold
    obtain ⟨r, _, hr⟩ := Option.map_eq_some_iff.mp hanswer
    have hticket : x.1.ticket = p.ticket := (Prod.mk.inj hr).1
    have hleaves : x.1 ∈ out.map Prod.fst := List.mem_map.mpr ⟨x, hx, rfl⟩
    exact hapart x.1 (List.mem_append_right _ hleaves) hticket.symm
  · intro hwaits
    obtain ⟨q, hq, hticket⟩ := List.mem_map.mp hwaits
    exact hapart q (List.mem_append_left _ hq) hticket.symm

theorem serving_event (serving : m.serving? = some v) : m.event.arrivals = [] ∧ m.formed c = [] := by
  obtain ⟨hevent, _⟩ := serving?_eq_some serving
  unfold Moment.formed
  rw [hevent]
  exact ⟨rfl, rfl⟩

/-- A batch that crashes when it is served is the last one that is served, and its window the last
one that is cut. -/
theorem History.last_served (h : c.History (before ++ m :: after) s effects)
    (serving : m.serving? = some v) (crashed : v.progress c = .ended .crashed) :
    servings (before ++ m :: after) = servings before ++ [v] ∧
      c.formed (before ++ m :: after) = c.formed before := by
  obtain ⟨told, more, _, _, hgone⟩ := h.gone_since serving crashed
  have hquiet : m.formed c = [] := (serving_event serving).2
  rw [List.append_cons]
  constructor
  · rw [servings_append, servings_snoc, serving, hgone.served, List.append_nil]
    rfl
  · rw [formed_append, formed_snoc, hquiet, hgone.formed, List.append_nil, List.append_nil]

theorem held_dispatched {p : Pending}
    (hp : p ∈ s.worker.batches.flatten ++ s.queue.flatMap Flush.items) : p ∈ s.held := by
  refine List.mem_append_right _ ?_
  rcases List.mem_append.mp hp with hp | hp
  · exact List.mem_append_right _ (List.mem_append_left _ hp)
  · exact List.mem_append_left _ hp

/-- All requests that the dispatcher holds when it crashes, or that wait for it, are told that no
answer comes. -/
theorem History.lost (h : c.History (before ++ m :: after) s effects)
    (fresh : ((arrivals (before ++ m :: after)).map (·.ticket)).Nodup)
    (serving : m.serving? = some v) (crashed : v.progress c = .ended .crashed) {p : Pending}
    (hp : p ∈ m.state.worker.batches.flatten ++ m.state.queue.flatMap Flush.items) :
    answersTo p.ticket effects = if p.ticket ∈ m.state.left then [] else [.error c.dropped] := by
  obtain ⟨calls, _, hstep⟩ := step_crashed serving crashed
  have hm : m ∈ before ++ m :: after := List.mem_append_right _ List.mem_cons_self
  refine h.told_once fresh hm (held_dispatched hp) fun hwaits => ?_
  rw [hstep, answers_append]
  exact List.mem_append_right _ (mem_answers_all hp hwaits fun _ => .error c.dropped)

/-- Those in the window, and those that come in later, are told nothing else. -/
theorem History.lost_later (h : c.History (before ++ m :: after) s effects)
    (fresh : ((arrivals (before ++ m :: after)).map (·.ticket)).Nodup)
    (serving : m.serving? = some v) (crashed : v.progress c = .ended .crashed) {p : Pending}
    (hp : p ∈ m.state.pending ++ arrivals after) {result : Except Error Json}
    (hresult : result ∈ answersTo p.ticket effects) : result = .error c.dropped := by
  obtain ⟨told, more, htold, heffects, hgone⟩ := h.gone_since serving crashed
  obtain ⟨calls, hcalls, hstep⟩ := step_crashed serving crashed
  have hnone : m.event.arrivals = [] := (serving_event (c := c) serving).1
  rw [List.append_cons, arrivals_append, arrivals_snoc, hnone, List.append_nil] at fresh
  obtain ⟨hbefore, hwaits⟩ := htold.untouched fresh hp
  have hcrash : answersTo p.ticket calls = [] := by
    unfold answersTo
    rw [hcalls]
    rfl
  rw [heffects, hstep, answersTo_append, answersTo_append, answersTo_append, hbefore, hcrash,
    List.nil_append, List.nil_append] at hresult
  rcases List.mem_append.mp hresult with hresult | hresult
  · exact answersTo_drop hresult
  · exact hgone.told p.ticket hwaits result hresult

end

end Scheduler

end Coalesce
