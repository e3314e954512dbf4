import Coalesce.Options.Settings

/-!
# Settings stay within their bounds

* `Bounds.low_le_clamp`, `Bounds.clamp_le_high`  what it means to be brought into bounds;
* `Options.maxSize_within`                       a batch has room for two requests at least;
* `Options.waitQueries_forced`                   a target that batches indiscriminately waits for as
                                                 many requests as fit one batch.
-/

namespace Coalesce

theorem Bounds.low_le_clamp (b : Bounds) (n : Nat) : b.low ≤ b.clamp n := Nat.le_max_left _ _

theorem Bounds.clamp_le_high {b : Bounds} (h : b.low ≤ b.high) (n : Nat) : b.clamp n ≤ b.high :=
  Nat.max_le.mpr ⟨h, Nat.min_le_right _ _⟩

namespace Options

theorem maxSize_within (o : Options) : 2 ≤ o.settings.maxSize ∧ o.settings.maxSize ≤ 100 :=
  ⟨Bounds.maxSize.low_le_clamp _, Bounds.clamp_le_high (by decide) _⟩

theorem waitQueries_forced (o : Options) (mixes : o.strategy = .indiscriminate) :
    o.settings.waitQueries = o.settings.maxSize := by
  unfold settings resolve
  dsimp only
  split
  · rfl
  · rename_i h
    exact Decidable.not_not.mp fun hne => h ⟨mixes, hne⟩

end Options

end Coalesce
