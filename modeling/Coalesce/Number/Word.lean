/-!
# The range of 64-bit words

* `Word.unsignedMax`                    the largest natural number of 64 bits;
* `Word.signedMin`, `Word.signedMax`    the ends of the signed range;
* `Word.clamp`                          the nearest integer of the signed range.
-/

namespace Coalesce.Word

def unsignedMax : Nat := 18446744073709551615

/-- the least integer of 64 bits with a sign -/
def signedMin : Int := -9223372036854775808

/-- the largest integer of 64 bits with a sign -/
def signedMax : Int := 9223372036854775807

def clamp (i : Int) : Int := max signedMin (min i signedMax)

theorem signedMin_neg : signedMin < 0 := by decide

theorem signedMax_pos : 0 < signedMax := by decide

section
variable {i j : Int}

theorem clamp_of_le (h : i ≤ signedMax) : clamp i = max i signedMin := by
  unfold clamp
  omega

theorem clamp_of_nonneg (h : 0 ≤ i) : clamp i = min i signedMax := by
  have hmin := signedMin_neg
  have hmax := signedMax_pos
  unfold clamp
  omega

theorem clamp_mono (h : i ≤ j) : clamp i ≤ clamp j := by
  unfold clamp
  omega

/-- Only below the range is anything raised. -/
theorem clamp_le_self (h : signedMin < clamp i) : clamp i ≤ i := by
  unfold clamp at h ⊢
  omega

theorem clamp_lt_iff (low : signedMin < j) (high : j ≤ signedMax) : clamp i < j ↔ i < j := by
  unfold clamp
  omega

end

end Coalesce.Word
