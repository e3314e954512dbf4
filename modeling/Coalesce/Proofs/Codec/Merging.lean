import Coalesce.Codec.Basic
import Coalesce.Proofs.Batch.Refusal

/-!
# Which documents are accepted

* `Outcome.bind_eq_done`, `Outcome.bind_eq_failed`, `Outcome.bind_eq_crashed`
                          what two steps of foreign code come to, by what each of them does;
* `Merger.seen_eq_ok`, `Merger.seen_eq_error`
                          members are walked over to the end, or up to the first one that does not
                          fit;
* `Merger.Defect`         what is wrong with documents for so many requests;
* `Merger.mergeChecked_eq_done`, `Merger.mergeChecked_eq_failed`
                          documents are accepted as they are just if they share out all requests,
                          and refused for their defect otherwise;
* `Merger.restorable_iff` they share out all requests just if whatever comes back for them can be
                          put back in order.

That members do not fit means the same here as it does for the positions of a layout; only the
number of the slots is another one.
-/

namespace Coalesce

namespace Outcome

variable {α β : Type}

/-- a step goes through just if both its parts do -/
theorem bind_eq_done {x : Outcome α} {f : α → Outcome β} {b : β} :
    (x >>= f) = .done b ↔ ∃ a, x = .done a ∧ f a = .done b := by
  cases x with
  | done a =>
    constructor
    · exact fun h => ⟨a, rfl, h⟩
    · rintro ⟨a', h, hf⟩
      cases h
      exact hf
  | failed e =>
    constructor
    · intro h
      cases h
    · rintro ⟨a, h, _⟩
      cases h
  | crashed =>
    constructor
    · intro h
      cases h
    · rintro ⟨a, h, _⟩
      cases h

/-- a failure is that of one of both parts -/
theorem bind_eq_failed {x : Outcome α} {f : α → Outcome β} {e : Error} :
    (x >>= f) = .failed e ↔ x = .failed e ∨ ∃ a, x = .done a ∧ f a = .failed e := by
  cases x with
  | done a =>
    constructor
    · exact fun h => .inr ⟨a, rfl, h⟩
    · rintro (h | ⟨a', h, hf⟩)
      · cases h
      · cases h
        exact hf
  | failed e' =>
    constructor
    · intro h
      cases h
      exact .inl rfl
    · rintro (h | ⟨a, h, _⟩)
      · cases h
        rfl
      · cases h
  | crashed =>
    constructor
    · intro h
      cases h
    · rintro (h | ⟨a, h, _⟩) <;> cases h

/-- and so is a crash -/
theorem bind_eq_crashed {x : Outcome α} {f : α → Outcome β} :
    (x >>= f) = .crashed ↔ x = .crashed ∨ ∃ a, x = .done a ∧ f a = .crashed := by
  cases x with
  | done a =>
    constructor
    · exact fun h => .inr ⟨a, rfl, h⟩
    · rintro (h | ⟨a', h, hf⟩)
      · cases h
      · cases h
        exact hf
  | failed e =>
    constructor
    · intro h
      cases h
    · rintro (h | ⟨a, h, _⟩) <;> cases h
  | crashed => exact ⟨fun _ => .inl rfl, fun _ => rfl⟩

theorem ofExcept_eq_failed {x : Except Error α} {e : Error} :
    ofExcept x = .failed e ↔ x = .error e := by
  cases x with
  | error e' =>
    constructor
    · intro h
      cases h
      rfl
    · intro h
      cases h
      rfl
  | ok a =>
    constructor
    · intro h
      cases h
    · intro h
      cases h

theorem ofExcept_ne_crashed (x : Except Error α) : ofExcept x ≠ .crashed := by
  cases x <;> exact fun h => by cases h

theorem ofExcept_eq_done {x : Except Error α} {a : α} : ofExcept x = .done a ↔ x = .ok a := by
  cases x with
  | error e =>
    constructor
    · intro h
      cases h
    · intro h
      cases h
  | ok b =>
    constructor
    · intro h
      cases h
      rfl
    · intro h
      cases h
      rfl

end Outcome

namespace Merger

open Layout (Fillable FirstUnfit)

/-! ## members -/

/-- The walk remembers what is taken, the last one first. -/
theorem seen_taken {total : Nat} {taken : List Nat} (m : Nat) (rest : List Nat) :
    seen total taken.reverse (m :: rest)
      = if m < total ∧ m ∉ taken then seen total (taken ++ [m]).reverse rest
        else .error (.runtime (.mergeRepeats m)) := by
  rw [List.reverse_concat]
  simp only [seen, List.mem_reverse]

theorem seen_eq_ok {total : Nat} {taken members found : List Nat} (fill : Fillable total taken) :
    seen total taken.reverse members = .ok found ↔
      Fillable total (taken ++ members) ∧ found = (taken ++ members).reverse := by
  induction members generalizing taken with
  | nil =>
    rw [List.append_nil]
    constructor
    · intro h
      cases h
      exact ⟨fill, rfl⟩
    · rintro ⟨_, rfl⟩
      rfl
  | cons m rest ih =>
    rw [seen_taken, List.append_cons taken m rest]
    by_cases hm : m < total ∧ m ∉ taken
    · rw [if_pos hm]
      exact ih ((Layout.fillable_snoc fill).mpr hm)
    · rw [if_neg hm]
      constructor
      · intro h
        cases h
      · rintro ⟨hfill, _⟩
        exact absurd ((Layout.fillable_snoc fill).mp (Layout.fillable_append.mp hfill).1) hm

theorem seen_all_eq_ok {total : Nat} {members found : List Nat} :
    seen total [] members = .ok found ↔ Fillable total members ∧ found = members.reverse :=
  seen_eq_ok (Layout.fillable_nil total)

theorem seen_eq_error {total : Nat} {taken members : List Nat} (fill : Fillable total taken)
    {cause : Error} :
    seen total taken.reverse members = .error cause ↔
      ∃ i, FirstUnfit total taken members i ∧ cause = .runtime (.mergeRepeats i) := by
  induction members generalizing taken with
  | nil =>
    constructor
    · intro h
      cases h
    · rintro ⟨i, hi, _⟩
      exact absurd hi Layout.not_firstUnfit_nil
  | cons m rest ih =>
    rw [seen_taken]
    by_cases hm : m < total ∧ m ∉ taken
    · simp only [Layout.firstUnfit_cons_of_fits hm]
      rw [if_pos hm]
      exact ih ((Layout.fillable_snoc fill).mpr hm)
    · simp only [Layout.firstUnfit_cons_of_not_fits fill hm]
      rw [if_neg hm]
      constructor
      · intro h
        cases h
        exact ⟨m, rfl, rfl⟩
      · rintro ⟨i, rfl, rfl⟩
        rfl

/-! ## documents -/

/-- What is wrong with documents for so many requests. -/
inductive Defect (total : Nat) (documents : List MergedDocument) : Error → Prop where
  /-- a member is no request, or was a member before -/
  | repeats (i : Nat) (first : FirstUnfit total [] (documents.flatMap (·.members)) i) :
      Defect total documents (.runtime (.mergeRepeats i))
  /-- all members are different requests, but some request is no member -/
  | misses (fill : Fillable total (documents.flatMap (·.members)))
      (fewer : (documents.flatMap (·.members)).length < total) :
      Defect total documents
        (.runtime (.mergeMisses (documents.flatMap (·.members)).length total))

variable {total : Nat} {documents : List MergedDocument}

theorem check_eq_ok :
    check total documents = .ok () ↔
      (documents.flatMap (·.members)).Perm (List.range total) := by
  rw [← Layout.fillable_range_iff]
  constructor
  · intro h
    obtain ⟨found, hfound, hlength⟩ := except_bind_eq_ok.mp h
    obtain ⟨hfill, rfl⟩ := seen_all_eq_ok.mp hfound
    rw [List.length_reverse] at hlength
    split at hlength
    · exact ⟨hfill, by assumption⟩
    · cases hlength
  · rintro ⟨hfill, hlength⟩
    refine except_bind_eq_ok.mpr ⟨_, seen_all_eq_ok.mpr ⟨hfill, rfl⟩, ?_⟩
    rw [List.length_reverse, if_pos hlength]

theorem check_eq_error {cause : Error} :
    check total documents = .error cause ↔ Defect total documents cause := by
  constructor
  · intro h
    obtain hseen | ⟨found, hfound, hlength⟩ := except_bind_eq_error.mp h
    · obtain ⟨i, hfirst, rfl⟩ := (seen_eq_error (Layout.fillable_nil total)).mp hseen
      exact .repeats i hfirst
    · obtain ⟨hfill, rfl⟩ := seen_all_eq_ok.mp hfound
      rw [List.length_reverse] at hlength
      split at hlength
      · cases hlength
      · rename_i hother
        cases hlength
        exact .misses hfill (Nat.lt_of_le_of_ne hfill.length_le hother)
  · intro h
    refine except_bind_eq_error.mpr ?_
    cases h with
    | repeats i first =>
      exact .inl ((seen_eq_error (Layout.fillable_nil total)).mpr ⟨i, first, rfl⟩)
    | misses fill fewer =>
      refine .inr ⟨_, seen_all_eq_ok.mpr ⟨fill, rfl⟩, ?_⟩
      rw [List.length_reverse, if_neg (Nat.ne_of_lt fewer)]

/-- Documents with a defect do not share out all requests, and other documents do. -/
theorem defect_iff :
    (∃ cause, Defect total documents cause) ↔
      ¬ (documents.flatMap (·.members)).Perm (List.range total) := by
  rw [← check_eq_ok]
  simp only [← check_eq_error]
  cases check total documents with
  | ok u =>
    refine ⟨?_, fun h => absurd rfl h⟩
    rintro ⟨cause, h⟩
    cases h
  | error cause =>
    refine ⟨fun _ h => ?_, fun _ => ⟨cause, rfl⟩⟩
    cases h

section
variable {m : Merger} {round : Nat} {requests : List Request}
  (made : m.merge round requests = .done documents)
include made

theorem mergeChecked_of_merge :
    m.mergeChecked round requests
      = (Outcome.ofExcept (check requests.length documents) >>= fun _ => .done documents) := by
  unfold mergeChecked
  rw [made]
  rfl

theorem mergeChecked_eq_done {documents' : List MergedDocument} :
    m.mergeChecked round requests = .done documents' ↔
      documents' = documents ∧
        (documents.flatMap (·.members)).Perm (List.range requests.length) := by
  rw [mergeChecked_of_merge made, ← check_eq_ok]
  constructor
  · intro h
    obtain ⟨_, hcheck, hret⟩ := Outcome.bind_eq_done.mp h
    cases hret
    exact ⟨rfl, Outcome.ofExcept_eq_done.mp hcheck⟩
  · rintro ⟨rfl, hcheck⟩
    exact Outcome.bind_eq_done.mpr ⟨(), Outcome.ofExcept_eq_done.mpr hcheck, rfl⟩

theorem mergeChecked_eq_failed {cause : Error} :
    m.mergeChecked round requests = .failed cause ↔ Defect requests.length documents cause := by
  rw [mergeChecked_of_merge made, ← check_eq_error]
  constructor
  · intro h
    obtain hcheck | ⟨_, _, hret⟩ := Outcome.bind_eq_failed.mp h
    · exact Outcome.ofExcept_eq_failed.mp hcheck
    · cases hret
  · exact fun h => Outcome.bind_eq_failed.mpr (.inl (Outcome.ofExcept_eq_failed.mpr h))

end

/-! ## layouts -/

/-- The results for some documents can be put back in order, whatever they are, just if the
documents share out as many requests as their members are. -/
theorem restorable_iff {α : Type} [Nonempty α] :
    (Layout.mk (documents.map (·.members))).size = total ∧
        (∀ results : List (List α),
          results.map List.length = (documents.map (·.members)).map List.length →
          ∃ values, (Layout.mk (documents.map (·.members))).restore results = .ok values) ↔
      (documents.flatMap (·.members)).Perm (List.range total) := by
  constructor
  · rintro ⟨hsize, hall⟩
    obtain ⟨a⟩ := ‹Nonempty α›
    -- some results that fit
    have hshape : ((documents.map (·.members)).map fun g => g.map fun _ => a).map List.length
        = (documents.map (·.members)).map List.length := by
      simp
    have hperm := (Layout.restore_eq_ok_iff.mp (hall _ hshape)).2
    rw [hsize] at hperm
    exact hperm
  · intro hperm
    have hsize : (Layout.mk (documents.map (·.members))).size = total := by
      rw [← (Layout.fillable_range_iff.mpr hperm).2]
      rfl
    refine ⟨hsize, fun results hshape => Layout.restore_eq_ok_iff.mpr ⟨hshape, ?_⟩⟩
    rw [hsize]
    exact hperm

end Merger

namespace Codec

/-- Several requests are refused together with the documents for them. -/
theorem encode_merged_failed {m : Merger} {round : Nat} {requests : List Request} {cause : Error}
    (several : requests.length ≠ 1) (h : m.mergeChecked round requests = .failed cause) :
    (Codec.single m).encode requests round = .failed cause := by
  rcases requests with _ | ⟨r, _ | ⟨r', rest⟩⟩
  · exact Outcome.bind_eq_failed.mpr (.inl h)
  · exact absurd rfl several
  · exact Outcome.bind_eq_failed.mpr (.inl h)

end Codec

end Coalesce
