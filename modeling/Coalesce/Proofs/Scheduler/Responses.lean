import Coalesce.Proofs.Scheduler.Batches

/-!
# No call has two responses

* `Scheduler.CameBack.cases`     what one more moment may bring back: the response to a call that is
                                 waited for, or what is there at once for a batch just served;
* `Scheduler.History.came_lt`    responses come back to batches that were served;
* `Scheduler.History.awaits`     what a delivery waits for has not come back;
* `Scheduler.History.came_once`  no call has two responses.
-/

namespace Coalesce

namespace Scheduler

variable {c : Scheduler} {past : List Moment} {s : State} {effects : List Effect}

theorem servings_length_append (past more : List Moment) :
    (servings past).length ≤ (servings (past ++ more)).length := by
  rw [servings_append, List.length_append]
  exact Nat.le_add_right _ _

/-- A response that came back in the last moment. -/
inductive Arrives (c : Scheduler) (past : List Moment) (m : Moment) (id k : Nat)
    (response : Json) : Prop where
  | waited (event : m.event = .finish id k (.done response)) (d : Delivery)
      (delivery : d ∈ m.state.deliveries) (same : d.id = id)
      (waits : d.exchange.slots[k]? = some .waiting)
  | served (v : Serving) (serving : m.serving? = some v) (last : (servings past).length ≤ id)
      (came : Target.CameAtOnce v.transport (v.called c) k response)

theorem CameBack.cases {m : Moment} {id k : Nat} {response : Json}
    (h : c.CameBack (past ++ [m]) id k response) :
    c.CameBack past id k response ∨ c.Arrives past m id k response := by
  cases h with
  | atOnce v served came =>
    by_cases hid : id < (servings past).length
    · rw [servings_snoc, List.getElem?_append_left hid] at served
      exact Or.inl (.atOnce v served came)
    · have hlast := Nat.le_of_not_lt hid
      rw [servings_snoc, List.getElem?_append_right hlast] at served
      have hv : v ∈ m.serving?.toList := List.mem_of_getElem? served
      exact Or.inr (.served v (Option.mem_toList.mp hv) hlast came)
  | later m' d one event delivery same waits =>
    rcases List.mem_append.mp one with hm | hm
    · exact Or.inl (.later m' d hm event delivery same waits)
    · rw [List.mem_singleton.mp hm] at event delivery
      exact Or.inr (.waited event d delivery same waits)

theorem History.came_lt (h : c.History past s effects) {id k : Nat} {response : Json}
    (hcame : c.CameBack past id k response) : id < (servings past).length := by
  cases hcame with
  | atOnce v served came => exact (List.getElem?_eq_some_iff.mp served).1
  | later m d one event delivery same waits =>
    obtain ⟨before, after, effects', rfl, hbefore⟩ := h.before one
    have hlt := (hbefore.orderly.kept d delivery).id_lt
    rw [same] at hlt
    exact Nat.lt_of_lt_of_le hlt (servings_length_append _ _)

/-- an event that is not for a delivery brings nothing back to it -/
theorem awaits_quiet (h : c.History past s effects) {d : Delivery} (hd : d ∈ s.deliveries)
    (hawaits : d.exchange.Awaits (c.CameBack past d.id)) {e : Event}
    (hother : ∀ call outcome, e ≠ .finish d.id call outcome) :
    d.exchange.Awaits (c.CameBack (past ++ [⟨s, e⟩]) d.id) := by
  intro k response hwaits hcame
  rcases hcame.cases with hold | hnew
  · exact hawaits k response hwaits hold
  · cases hnew with
    | waited event d' delivery same waits => exact hother _ _ event
    | served v serving last came =>
      have hlt := (h.orderly.kept d hd).id_lt
      omega

theorem History.awaits (h : c.History past s effects) :
    ∀ d ∈ s.deliveries, d.exchange.Awaits (c.CameBack past d.id) := by
  induction h using History.by_changes with
  | start => exact fun d hd => absurd hd List.not_mem_nil
  | next past s effects e s' more h _ change ih =>
    have quiet : ∀ d ∈ s.deliveries, (∀ call outcome, e ≠ .finish d.id call outcome) →
        d.exchange.Awaits (c.CameBack (past ++ [⟨s, e⟩]) d.id) :=
      fun d hd hother => awaits_quiet h hd (ih d hd) hother
    have ofWindow : e.ofWindow → ∀ d ∈ s.deliveries,
        d.exchange.Awaits (c.CameBack (past ++ [⟨s, e⟩]) d.id) := by
      intro window d hd
      refine quiet d hd fun call outcome he => ?_
      rw [he] at window
      cases window
    cases change with
    | waits _ window => exact ofWindow window
    | flushed _ window => exact ofWindow window
    | lost _ window => exact ofWindow window
    | left ticket => exact fun d hd => quiet d hd fun call outcome he => by cases he
    | taken => exact fun d hd => quiet d hd fun call outcome he => by cases he
    | idle _ served formed arrivals finished =>
      refine fun d hd => quiet d hd fun call outcome he => ?_
      have hnone := List.find?_eq_none.mp (finished d.id call outcome he) d hd
      exact hnone (decide_eq_true rfl)
    | started now transport members rest working exchange running =>
      intro d hd
      rcases List.mem_append.mp hd with hd | hd
      · exact quiet d hd fun call outcome he => by cases he
      · rw [List.mem_singleton.mp hd]
        have hstart : c.target.start now transport (members.map (·.item))
            = (Serving.called c ⟨now, transport, members⟩, .running exchange) :=
          Prod.ext rfl running
        obtain ⟨_, _, _, _, _, hawaits⟩ := Target.start_running hstart
        intro k response hwaits hcame
        rcases hcame.cases with hold | hnew
        · have hlt := h.came_lt hold
          rw [← h.orderly.next] at hlt
          exact absurd hlt (Nat.lt_irrefl _)
        · cases hnew with
          | waited event => cases event
          | served v serving last came =>
            rw [serving?_serve now transport working] at serving
            cases serving
            exact hawaits k response hwaits came
    | ended => exact fun d hd => quiet d hd fun call outcome he => by cases he
    | crashed => exact fun d hd => quiet d hd fun call outcome he => by cases he
    | resumed id call outcome d found exchange running =>
      intro d₁ hd₁
      obtain ⟨d₀, hd₀, rfl⟩ := List.mem_map.mp hd₁
      by_cases hid : d₀.id = id
      · rw [if_pos hid]
        obtain rfl := h.orderly.found found hd₀ hid
        intro k response hwaits hcame
        obtain ⟨hne, hold⟩ :=
          Exchange.resume_waits (h.orderly.kept d₀ hd₀).backed.length running hwaits
        rcases hcame.cases with hcame | hnew
        · exact ih d₀ hd₀ k response hold hcame
        · cases hnew with
          | waited event =>
            cases event
            exact hne rfl
          | served v serving => cases serving
      · rw [if_neg hid]
        refine quiet d₀ hd₀ fun call' outcome' he => ?_
        cases he
        exact hid rfl
    | finished id call outcome d found result ends =>
      intro d' hd'
      obtain ⟨hd', hid⟩ := List.mem_filter.mp hd'
      refine quiet d' hd' fun call' outcome' he => ?_
      cases he
      exact absurd rfl (of_decide_eq_true hid)

theorem History.came_once (h : c.History past s effects) {id k : Nat} {response other : Json}
    (hcame : c.CameBack past id k response) (hother : c.CameBack past id k other) :
    response = other := by
  induction h generalizing id k with
  | start =>
    cases hcame with
    | atOnce v served came => cases served
    | later m d one => exact absurd one List.not_mem_nil
  | @next past s effects h e ih =>
    -- what has come is not waited for, and not to a batch that is yet to be served
    have late : ∀ {response other : Json}, c.CameBack past id k response →
        ¬ c.Arrives past ⟨s, e⟩ id k other := by
      intro response other hold hnew
      cases hnew with
      | waited event d delivery same waits =>
        rw [← same] at hold
        exact h.awaits d delivery k _ waits hold
      | served v serving last came =>
        have hlt := h.came_lt hold
        omega
    rcases hcame.cases with hold | hnew
    · rcases hother.cases with hold' | hnew'
      · exact ih hold hold'
      · exact absurd hnew' (late hold)
    · rcases hother.cases with hold' | hnew'
      · exact absurd hnew (late hold')
      · cases hnew with
        | waited event d delivery same waits =>
          cases hnew' with
          | waited event' =>
            have heq := event.symm.trans event'
            cases heq
            rfl
          | served v serving =>
            unfold Moment.serving? at serving
            rw [event] at serving
            cases serving
        | served v serving last came =>
          cases hnew' with
          | waited event =>
            unfold Moment.serving? at serving
            rw [event] at serving
            cases serving
          | served v' serving' last' came' =>
            rw [serving] at serving'
            cases serving'
            exact Target.cameAtOnce_once came came'

end Scheduler

end Coalesce
