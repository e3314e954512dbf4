import Coalesce.Proofs.Dispatch.Execution

/-!
# Checks that nothing fails

* `Error.OfLayout`          the errors of results that cannot be put back in order, and
                            `Layout.restore_error`: there are no others;
* `Error.OfGuard`           these, and the errors of a target that is handed too many requests, or of
                            a request that is left without a result;
* `Codec.decode_guarded`, `Codec.encode_guarded`
                            codecs come to none of them by themselves;
* `Target.execute_failed`   results can always be put back in order.

Foreign code may say anything, and what it says is passed on.  So an error counts only if no foreign
code gives it.
-/

namespace Coalesce

namespace Error

inductive OfLayout : Error → Prop where
  | results (expected actual : Nat) (fault : Option ResponseFault) :
      OfLayout (.protocol "batch" expected actual fault)
  | repeats (index : Nat) : OfLayout (.runtime (.layoutRepeats index))
  | misses : OfLayout (.runtime .layoutMisses)

inductive OfGuard : Error → Prop where
  | layout {cause : Error} (h : cause.OfLayout) : OfGuard cause
  | requests (count : Nat) : OfGuard (.runtime (.tooManyRequests count))
  | result : OfGuard (.runtime .noResult)

end Error

namespace Layout

variable {α : Type}

theorem put_error {slots : List (Option α)} {index : Nat} {result : α} {cause : Error}
    (h : put slots index result = .error cause) : cause.OfLayout := by
  unfold put at h
  split at h
  · cases h
  · cases h
    exact .repeats index

theorem putAll_error {slots : List (Option α)} {results : List (Nat × α)} {cause : Error}
    (h : putAll slots results = .error cause) : cause.OfLayout := by
  induction results generalizing slots with
  | nil => cases h
  | cons p rest ih =>
    rw [putAll_cons] at h
    obtain hput | ⟨slots', _, hrest⟩ := except_bind_eq_error.mp h
    · exact put_error hput
    · exact ih hrest

theorem putGroups_error {slots : List (Option α)} {pairs : List (List Nat × List α)} {cause : Error}
    (h : putGroups slots pairs = .error cause) : cause.OfLayout := by
  induction pairs generalizing slots with
  | nil => cases h
  | cons p rest ih =>
    unfold putGroups at h
    split at h
    · cases h
      exact .results _ _ _
    · obtain hput | ⟨slots', _, hrest⟩ := except_bind_eq_error.mp h
      · exact putAll_error hput
      · exact ih hrest

theorem restore_error {l : Layout} {results : List (List α)} {cause : Error}
    (h : l.restore results = .error cause) : cause.OfLayout := by
  unfold restore at h
  split at h
  · cases h
    exact .results _ _ _
  · obtain hput | ⟨slots, _, hcollect⟩ := except_bind_eq_error.mp h
    · exact putGroups_error hput
    · split at hcollect
      · cases hcollect
      · cases hcollect
        exact .misses

end Layout

namespace Codec

theorem name_ne_batch (k : Codec) : k.name ≠ "batch" := by
  cases k with
  | single m => exact (by decide : Style.single.name ≠ "batch")
  | _ => decide

variable {k : Codec} {cause : Error}

/-- a number of results is that of a codec, not that of a layout -/
theorem decode_guarded {call : EncodedCall} {response : Json}
    (h : k.decode call response = .failed cause) (guard : cause.OfGuard) : k.Gives cause := by
  obtain hgives | ⟨actual, fault, rfl⟩ := decode_failed h
  · exact hgives
  · have hname := k.name_ne_batch
    cases guard with
    | layout hlayout =>
      generalize k.name = name at hlayout hname
      cases hlayout
      exact absurd rfl hname

theorem encode_guarded {requests : List Request} {round : Nat}
    (h : k.encode requests round = .failed cause) (guard : cause.OfGuard) :
    k.Gives cause ∨ k = .plain ∧ requests.length ≠ 1 ∧
      cause = .runtime (.tooManyRequests requests.length) := by
  obtain hgives | hrefuses := encode_failed h
  · exact .inl hgives
  · cases hrefuses with
    | plain many => exact .inr ⟨rfl, many, rfl⟩
    | repeats m member =>
      cases guard with
      | layout hlayout => cases hlayout
    | misses m covered =>
      cases guard with
      | layout hlayout => cases hlayout

end Codec

/-- Results can always be put back in order: an error that says they cannot is one that foreign code
gives. -/
theorem Target.execute_failed {t : Target} {now : Int} {transport : Transport} {items : List Item}
    {back : List (Nat × Outcome Json)} {cause : Error}
    (h : t.execute now transport items back = .ended (.failed cause)) (layout : cause.OfLayout) :
    transport.Gives cause ∨ (∃ index, (index, .failed cause) ∈ back) ∨ t.codec.Gives cause := by
  let foreign (cause : Error) : Prop :=
    transport.Gives cause ∨ (∃ index, (index, .failed cause) ∈ back) ∨ t.codec.Gives cause
  have hfine : (t.execute now transport items back).Fine t.codec (items.map (·.request))
      fun cause => cause.OfLayout → foreign cause := by
    refine execute_fine (fun call response cause hdecode hlayout => ?_)
      (fun deadline remaining hlayout => by cases hlayout) (fun round cause hencode hlayout => ?_) now
      (fun cause hgives _ => .inl hgives) back fun index cause hmem _ => .inr (.inl ⟨index, hmem⟩)
    · exact .inr (.inr (Codec.decode_guarded hdecode (.layout hlayout)))
    · obtain hgives | ⟨_, _, rfl⟩ := Codec.encode_guarded hencode (.layout hlayout)
      · exact .inr (.inr hgives)
      · cases hlayout
  rw [h] at hfine
  cases hfine with
  | failed _ told => exact told layout

end Coalesce
