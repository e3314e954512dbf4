import Coalesce.Deadline
import Mathlib.Data.List.Induction

/-!
# What deadlines leave

* `Deadline.aggregate_some`      the aggregate is one of the deadlines, and none is earlier;
* `remaining_le`, `remaining_neg_iff`
                                 what is left is no more than exact arithmetic leaves, and is used
                                 up just when that is;
* `callTimeout_ok`, `callTimeout_error`
                                 when there is time for a call, and how much;
* `callTimeout_within`, `callTimeout_longest`, `callTimeout_none`
                                 what a timeout that is given promises;
* `callTimeout_aggregate`        there is time for many deadlines just if there is time for each.

Only reserves from zero up to the largest moment are compared with exact arithmetic.  A moment too
early to be told from others stays the earliest one, and is used up in any case.
-/

namespace Coalesce

namespace Deadline

theorem earliest_some {a b : Option Deadline} {m : Deadline} (h : earliest a b = some m) :
    (a = some m ∨ b = some m) ∧ (∀ d, a = some d → m ≤ d) ∧ ∀ d, b = some d → m ≤ d := by
  have one : ∀ d : Deadline, some m = some d → m ≤ d := fun d hd =>
    Int.le_of_eq (Option.some.inj hd)
  have nothing : ∀ d : Deadline, none = some d → m ≤ d := fun d hd => by cases hd
  cases a with
  | none =>
    cases b with
    | none => cases h
    | some y =>
      cases h
      exact ⟨Or.inr rfl, nothing, one⟩
  | some x =>
    cases b with
    | none =>
      cases h
      exact ⟨Or.inl rfl, one, nothing⟩
    | some y =>
      have hm : min x y = m := Option.some.inj h
      refine ⟨?_, fun d hd => ?_, fun d hd => ?_⟩
      · rcases Int.le_total x y with hxy | hyx
        · exact Or.inl (congrArg some ((Int.min_eq_left hxy).symm.trans hm))
        · exact Or.inr (congrArg some ((Int.min_eq_right hyx).symm.trans hm))
      · rw [← Option.some.inj hd, ← hm]
        exact Int.min_le_left x y
      · rw [← Option.some.inj hd, ← hm]
        exact Int.min_le_right x y

theorem earliest_eq_none {a b : Option Deadline} :
    earliest a b = none ↔ a = none ∧ b = none := by
  cases a <;> cases b <;> simp [earliest]

theorem aggregate_snoc (ds : List (Option Deadline)) (d : Option Deadline) :
    aggregate (ds ++ [d]) = earliest (aggregate ds) d := by
  unfold aggregate
  rw [List.foldl_append]
  rfl

theorem aggregate_eq_none {ds : List (Option Deadline)} :
    aggregate ds = none ↔ ∀ d ∈ ds, d = none := by
  induction ds using List.reverseRecOn with
  | nil => simp [aggregate_nil]
  | append_singleton ds d ih =>
    rw [aggregate_snoc, earliest_eq_none, ih, List.forall_mem_append, List.forall_mem_singleton]

/-- The aggregate is one of the deadlines, and none is earlier. -/
theorem aggregate_some {ds : List (Option Deadline)} {m : Deadline} (h : aggregate ds = some m) :
    some m ∈ ds ∧ ∀ d, some d ∈ ds → m ≤ d := by
  induction ds using List.reverseRecOn generalizing m with
  | nil => cases h
  | append_singleton ds o ih =>
    rw [aggregate_snoc] at h
    obtain ⟨hone, hfirst, hlast⟩ := earliest_some h
    refine ⟨?_, fun d hd => ?_⟩
    · rcases hone with hm | rfl
      · exact List.mem_append_left _ (ih hm).1
      · exact List.mem_append_right _ (List.mem_singleton_self _)
    · rcases List.mem_append.mp hd with hd | hd
      · cases hbefore : aggregate ds with
        | none => exact absurd (aggregate_eq_none.mp hbefore _ hd) (by simp)
        | some n => exact Int.le_trans (hfirst n hbefore) ((ih hbefore).2 d hd)
      · exact hlast d (List.mem_singleton.mp hd).symm

end Deadline

/-! ## what is left -/

section
variable {d now padding : Int}

theorem remaining_le (reserve : 0 ≤ padding) (h : 0 ≤ remaining d now padding) :
    remaining d now padding ≤ d - now - padding := by
  have hmin := Word.signedMin_neg
  unfold remaining at h ⊢
  have houter := Word.clamp_le_self (Int.lt_of_lt_of_le hmin h)
  have hinner : Word.clamp (d - now) ≤ d - now := Word.clamp_le_self (by omega)
  omega

theorem remaining_neg_iff (reserve : 0 ≤ padding) (fits : padding ≤ Word.signedMax) :
    remaining d now padding < 0 ↔ d - now - padding < 0 := by
  have hmin := Word.signedMin_neg
  have hinner : Word.clamp (d - now) < padding ↔ d - now < padding :=
    Word.clamp_lt_iff (by omega) fits
  unfold remaining
  rw [Word.clamp_lt_iff hmin (Int.le_of_lt Word.signedMax_pos)]
  omega

end

/-! ## timeouts -/

section
variable {longest limit : Option Duration} {deadline : Option Deadline} {now padding : Int}

theorem callTimeout_error {cause : Error} :
    callTimeout longest deadline now padding = .error cause ↔
      ∃ d, deadline = some d ∧ remaining d now padding < 0 ∧
        cause = .timeout d (remaining d now padding) := by
  cases deadline with
  | none => simp [callTimeout]
  | some d =>
    unfold callTimeout
    dsimp only
    split
    · rename_i hleft
      simp [hleft, eq_comm]
    · rename_i hleft
      simp [hleft]

/-- There is time for a call without a deadline, or as long as something is left. -/
theorem callTimeout_ok (h : callTimeout longest deadline now padding = .ok limit) :
    deadline = none ∧ limit = longest ∨
      ∃ d, deadline = some d ∧ 0 ≤ remaining d now padding ∧
        ∃ l, limit = some l ∧ l.nanos ≤ (remaining d now padding).natAbs * 1000000 ∧
          ∀ m, longest = some m → l.nanos ≤ m.nanos := by
  cases deadline with
  | none =>
    cases h
    exact Or.inl ⟨rfl, rfl⟩
  | some d =>
    unfold callTimeout at h
    dsimp only at h
    split at h
    · cases h
    · rename_i hleft
      cases h
      refine Or.inr ⟨d, rfl, Int.not_lt.mp hleft, _, rfl, ?_⟩
      cases longest with
      | none => exact ⟨Nat.le_refl _, fun m hm => by cases hm⟩
      | some m =>
        refine ⟨Nat.min_le_right _ _, fun m' hm => ?_⟩
        cases hm
        exact Nat.min_le_left _ _

/-- A timeout ends before the deadline, less the reserve. -/
theorem callTimeout_within (reserve : 0 ≤ padding) {d : Int}
    (h : callTimeout longest (some d) now padding = .ok limit) :
    0 ≤ d - now - padding ∧
      ∃ l, limit = some l ∧ (now + padding) * 1000000 + l.nanos ≤ d * 1000000 := by
  obtain ⟨hnone, _⟩ | ⟨d', hd, hleft, l, hl, hnanos, _⟩ := callTimeout_ok h
  · cases hnone
  · cases hd
    have hexact := remaining_le reserve hleft
    refine ⟨Int.le_trans hleft hexact, l, hl, ?_⟩
    omega

theorem callTimeout_longest {m : Duration}
    (h : callTimeout (some m) deadline now padding = .ok limit) :
    ∃ l, limit = some l ∧ l.nanos ≤ m.nanos := by
  obtain ⟨_, hl⟩ | ⟨_, _, _, l, hl, _, hlongest⟩ := callTimeout_ok h
  · exact ⟨m, hl, Nat.le_refl _⟩
  · exact ⟨l, hl, hlongest m rfl⟩

theorem callTimeout_none (h : callTimeout longest deadline now padding = .ok none) :
    longest = none ∧ deadline = none := by
  obtain ⟨hdeadline, hl⟩ | ⟨_, _, _, l, hl, _⟩ := callTimeout_ok h
  · exact ⟨hl.symm, hdeadline⟩
  · cases hl

/-- There is time for requests together if there is time for each of them, whatever the longest
time is. -/
theorem callTimeout_aggregate {ds : List (Option Deadline)}
    (each : ∀ d ∈ ds, ∃ l, callTimeout none d now padding = .ok l) :
    ∃ l, callTimeout longest (Deadline.aggregate ds) now padding = .ok l := by
  cases h : callTimeout longest (Deadline.aggregate ds) now padding with
  | ok l => exact ⟨l, rfl⟩
  | error cause =>
    obtain ⟨m, hm, hleft, _⟩ := callTimeout_error.mp h
    obtain ⟨l, hl⟩ := each _ (Deadline.aggregate_some hm).1
    have hlate : callTimeout none (some m) now padding
        = .error (.timeout m (remaining m now padding)) :=
      callTimeout_error.mpr ⟨m, rfl, hleft, rfl⟩
    rw [hl] at hlate
    cases hlate

end

end Coalesce
