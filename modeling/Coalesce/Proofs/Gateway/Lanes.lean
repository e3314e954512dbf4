import Coalesce.Proofs.Gateway.Targets
import Coalesce.Proofs.Gateway.Once

/-!
# Gateways lane by lane

* `Gateway.ofTarget`        the events of one target;
* `Gateway.lane_run`        a run leads each lane to where its own events lead it;
* `Gateway.mem_effects`     an effect of a run is one at some lane, or there is no such target.
-/

namespace Coalesce

namespace Gateway

/-- the events of one target -/
def ofTarget (target : String) (es : List Event) : List Lane.Event :=
  (es.filter (Event.at target)).map (·.event)

theorem ofTarget_snoc_own (es : List Event) (e : Event) :
    ofTarget e.target (es ++ [e]) = ofTarget e.target es ++ [e.event] := by
  have hat : e.at e.target = true := decide_eq_true rfl
  unfold ofTarget
  rw [List.filter_append, List.filter_cons_of_pos hat, List.map_append]
  rfl

theorem ofTarget_snoc_other {target : String} (es : List Event) {e : Event}
    (other : e.target ≠ target) : ofTarget target (es ++ [e]) = ofTarget target es := by
  have hat : ¬ e.at target = true := fun h => other (of_decide_eq_true h)
  unfold ofTarget
  rw [List.filter_append, List.filter_cons_of_neg hat, List.filter_nil, List.append_nil]

theorem run_snoc (g : Gateway) (s : State) (es : List Event) (e : Event) :
    g.run s (es ++ [e]) = ((g.step (g.run s es).1 e).1,
      (g.run s es).2 ++ (g.step (g.run s es).1 e).2) := by
  rw [run_append, run_cons, run_nil, List.append_nil]

theorem step_found {g : Gateway} {e : Event} {r : Route} (found : g.route? e.target = some r)
    (s : State) : g.step s e = (s.withLane e.target ((s.lane e.target).step r e.event).1,
      ((s.lane e.target).step r e.event).2) := by
  unfold step
  rw [found]

theorem step_other (g : Gateway) (s : State) {e : Event} {target : String}
    (other : e.target ≠ target) : (g.step s e).1.lane target = s.lane target := by
  unfold step
  split
  · exact s.lane_withLane_ne (Ne.symm other) _
  · split <;> rfl

section
variable {g : Gateway} {target : String} {r : Route} (found : g.route? target = some r)
include found

/-- A run leads each lane to where its own events lead it. -/
theorem lane_run (es : List Event) :
    (g.run {} es).1.lane target = (Lane.run r {} (ofTarget target es)).1 := by
  induction es using List.reverseRecOn with
  | nil => rfl
  | append_singleton es e ih =>
    rw [run_snoc]
    by_cases hown : e.target = target
    · subst hown
      rw [ofTarget_snoc_own, Lane.run_snoc, step_found found, State.lane_withLane, ih]
    · rw [ofTarget_snoc_other es hown, step_other g _ hown, ih]

end

/-- An effect of a run is one at a lane, or the answer for a target that there is not. -/
theorem mem_effects {g : Gateway} {es : List Event} {x : Effect} (hx : x ∈ (g.run {} es).2) :
    (∃ target r, g.route? target = some r ∧ x ∈ (Lane.run r {} (ofTarget target es)).2) ∨
      ∃ ticket target, x = .answered ticket (.error (.runtime (.unknownTarget target))) := by
  induction es using List.reverseRecOn with
  | nil => exact absurd hx List.not_mem_nil
  | append_singleton es e ih =>
    have grows : ∀ target r, (Lane.run r {} (ofTarget target es)).2
        ⊆ (Lane.run r {} (ofTarget target (es ++ [e]))).2 := by
      intro target r
      by_cases hown : e.target = target
      · subst hown
        rw [ofTarget_snoc_own, Lane.run_snoc]
        exact List.subset_append_left _ _
      · rw [ofTarget_snoc_other es hown]
        exact List.Subset.refl _
    rw [run_snoc] at hx
    rcases List.mem_append.mp hx with hx | hx
    · obtain ⟨target, r, hfound, hx⟩ | hunknown := ih hx
      · exact .inl ⟨target, r, hfound, grows target r hx⟩
      · exact .inr hunknown
    · cases hfound : g.route? e.target with
      | some r =>
        rw [step_found hfound, lane_run hfound] at hx
        refine .inl ⟨e.target, r, hfound, ?_⟩
        rw [ofTarget_snoc_own, Lane.run_snoc]
        exact List.mem_append_right _ hx
      | none =>
        unfold step at hx
        rw [hfound] at hx
        dsimp only at hx
        split at hx
        · exact .inr ⟨_, _, List.mem_singleton.mp hx⟩
        · exact absurd hx List.not_mem_nil

end Gateway

end Coalesce
