/-!
# Double precision numbers as exact fractions

* `Binary64`            a finite double: a sign and a magnitude `mantissa * 2 ^ exponent`;
* `Binary64.ofRatio`    the double nearest to a fraction, ties to the even mantissa;
* `Binary64.scaled`     digits and a power of ten, put together by double arithmetic;
* `Binary64.shortest`   the fewest decimal digits that read back as the same double.

No hardware number is used: every step is a computation on natural numbers, so what a text
denotes and how a double is written are both visible to a proof.
-/

namespace Coalesce

/-- A nonnegative finite double, `mantissa * 2 ^ exponent`. -/
structure Magnitude where
  mantissa : Nat
  exponent : Int
  deriving DecidableEq, Inhabited

/-- A finite double; zero has two signs. -/
structure Binary64 where
  negative : Bool
  magnitude : Magnitude
  deriving DecidableEq, Inhabited

namespace Magnitude

/-- the magnitude as a fraction, numerator first -/
def ratio (x : Magnitude) : Nat × Nat :=
  match x.exponent with
  | .ofNat e => (x.mantissa * Nat.pow 2 e, 1)
  | .negSucc e => (x.mantissa, Nat.pow 2 (e + 1))

def zero : Magnitude := ⟨0, -1074⟩

/-- the quotient of two naturals, rounded to the nearest, ties to even -/
def roundDiv (num den : Nat) : Nat :=
  let q := num / den
  let r := num % den
  if 2 * r < den then q else if den < 2 * r then q + 1 else q + q % 2

/-- `num / den / 2 ^ e`, rounded to the nearest natural -/
def atExponent (num den : Nat) : Int → Nat
  | .ofNat e => roundDiv num (den * Nat.pow 2 e)
  | .negSucc e => roundDiv (num * Nat.pow 2 (e + 1)) den

/-- The exponent at which `num / den` has 53 binary digits, bounded below by the subnormal one. -/
def exponentFor (num den : Nat) : Int :=
  let e : Int := (Nat.log2 num : Int) - (Nat.log2 den : Int) - 53
  let wide : Bool := match e with
    | .ofNat k => den * Nat.pow 2 (k + 53) ≤ num
    | .negSucc k => den * Nat.pow 2 53 ≤ num * Nat.pow 2 (k + 1)
  max (if wide then e + 1 else e) (-1074)

/-- The nearest double to a fraction; none beyond the largest. -/
def ofRatio (num den : Nat) : Option Magnitude :=
  if num = 0 then some zero
  else
    let e := exponentFor num den
    let m := atExponent num den e
    let x : Magnitude := if m = Nat.pow 2 53 then ⟨Nat.pow 2 52, e + 1⟩ else ⟨m, e⟩
    if 971 < x.exponent then none else some x

/-- product in double arithmetic -/
def mul (x y : Magnitude) : Option Magnitude :=
  ofRatio (x.ratio.1 * y.ratio.1) (x.ratio.2 * y.ratio.2)

/-- quotient in double arithmetic, by a nonzero double -/
def div (x y : Magnitude) : Option Magnitude :=
  ofRatio (x.ratio.1 * y.ratio.2) (x.ratio.2 * y.ratio.1)

/-- the double nearest to a power of ten -/
def tenTo (n : Nat) : Magnitude := (ofRatio (Nat.pow 10 n) 1).getD zero

/-- Division by ten to the `n`, at most `10 ^ 308` at a time. -/
def divTen (x : Magnitude) (n : Nat) : Magnitude :=
  if n ≤ 308 then (x.div (tenTo n)).getD zero
  else if x.mantissa = 0 then x
  else divTen ((x.div (tenTo 308)).getD zero) (n - 308)
termination_by n
decreasing_by omega

/-- A whole number of digits times a power of ten: the digits become a double first, and are then
multiplied or divided by a double power of ten. None on overflow. -/
def scaled (digits : Nat) (power : Int) : Option Magnitude :=
  match ofRatio digits 1 with
  | none => none
  | some x =>
    match power with
    | .negSucc n => some (x.divTen (n + 1))
    | .ofNat n =>
      if n ≤ 308 then x.mul (tenTo n)
      else if x.mantissa = 0 then some x
      else none

/-! ## decimal text -/

/-- The power of ten of the leading digit of a positive magnitude. -/
def leadingPower (x : Magnitude) : Int :=
  let (num, den) := x.ratio
  ((Nat.toDigits 10 (num * Nat.pow 10 400 / den)).length : Int) - 401

/-- `x` as a multiple of `10 ^ power`: numerator and denominator -/
def scaledBy (num den : Nat) : Int → Nat × Nat
  | .ofNat k => (num, den * Nat.pow 10 k)
  | .negSucc k => (num * Nat.pow 10 (k + 1), den)

/-- Whether the decimal `d * 10 ^ power` rounds to `x`: it lies between the midpoints to the
neighbouring doubles, which count themselves when the mantissa is even. -/
def readsBack (x : Magnitude) (d : Nat) (power : Int) : Bool :=
  let low := if x.mantissa = Nat.pow 2 52 ∧ x.exponent ≠ -1074 then 4 * x.mantissa - 1
    else 4 * x.mantissa - 2
  let high := 4 * x.mantissa + 2
  let quarter (n : Nat) : Nat × Nat :=
    let (num, den) := ratio ⟨n, x.exponent - 2⟩
    scaledBy num den power
  let (ln, ld) := quarter low
  let (hn, hd) := quarter high
  if x.mantissa % 2 = 0 then ln ≤ d * ld && d * hd ≤ hn else ln < d * ld && d * hd < hn

/-- the decimal with the given last power that is nearest to `x` and reads back, if one does -/
def atPower? (x : Magnitude) (power : Int) : Option Nat :=
  let (num, den) := scaledBy x.ratio.1 x.ratio.2 power
  let q := num / den
  let r := num % den
  let low := x.readsBack q power
  let high := x.readsBack (q + 1) power
  if low && high then
    some (if 2 * r < den then q else if den < 2 * r then q + 1 else q + q % 2)
  else if low then some q
  else if high then some (q + 1)
  else none

/-- digits and last power without trailing zeros -/
def trim (digits : Nat) (power : Int) : Nat → Nat × Int
  | 0 => (digits, power)
  | fuel + 1 => if digits ≠ 0 ∧ digits % 10 = 0 then trim (digits / 10) (power + 1) fuel
      else (digits, power)

/-- The fewest decimal digits that read back as the same double, nearest first, with the power of
ten of the last one. -/
def shortest (x : Magnitude) : Nat × Int :=
  let top := x.leadingPower
  let grids := (List.range 17).map fun (n : Nat) => top - (n : Int)
  match grids.findSome? fun p => (x.atPower? p).map fun d => (d, p) with
  | some (d, p) => trim d p 18
  | none => (0, 0)

end Magnitude

namespace Binary64

/-- Digits and a power of ten with a sign. -/
def scaled (negative : Bool) (digits : Nat) (power : Int) : Option Binary64 :=
  (Magnitude.scaled digits power).map fun x => ⟨negative, x⟩

/-- How a double is written: digits with a point between `1e-5` and `1e16`, always with a
fraction, and otherwise one digit before the point and a signed power. -/
def magnitudeText (x : Magnitude) : String :=
  if x.mantissa = 0 then "0.0"
  else
    let (d, p) := x.shortest
    let digits := (toString d).toList
    let lead : Int := p + digits.length - 1
    if -5 ≤ lead ∧ lead < 16 then
      if 0 ≤ p then String.ofList (digits ++ List.replicate p.toNat '0') ++ ".0"
      else if 0 ≤ lead then
        String.ofList (digits.take (lead.toNat + 1)) ++ "."
          ++ String.ofList (digits.drop (lead.toNat + 1))
      else "0." ++ String.ofList (List.replicate ((-lead).toNat - 1) '0' ++ digits)
    else
      let fraction := digits.drop 1
      String.ofList (digits.take 1)
        ++ (if fraction.isEmpty then "" else "." ++ String.ofList fraction)
        ++ "e" ++ (if lead < 0 then "-" else "+") ++ toString lead.natAbs

def text (x : Binary64) : String :=
  (if x.negative then "-" else "") ++ magnitudeText x.magnitude

end Binary64

end Coalesce
