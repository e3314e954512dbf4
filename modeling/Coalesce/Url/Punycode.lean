import Coalesce.Url.Percent

/-!
# Labels beyond ASCII

* `Punycode.encode`     the characters of a label as ASCII: those that are ASCII first, then for all
                        others, in ascending order, how far it is to the next one;
* `Punycode.decode?`    the label that is written so.
-/

namespace Coalesce.Punycode

/-- the digit threshold at a position -/
def threshold (k bias : Nat) : Nat :=
  if k ≤ bias then 1 else if bias + 26 ≤ k then 26 else k - bias

theorem threshold_pos (k bias : Nat) : 1 ≤ threshold k bias := by
  unfold threshold
  split
  · omega
  · split <;> omega

theorem threshold_le (k bias : Nat) : threshold k bias ≤ 26 := by
  unfold threshold
  split
  · omega
  · split <;> omega

/-- The bias for the next distance. -/
def settle (delta k : Nat) : Nat :=
  if 455 < delta then settle (delta / 35) (k + 36) else k + 36 * delta / (delta + 38)
termination_by delta
decreasing_by omega

def adapt (delta count : Nat) (first : Bool) : Nat :=
  let d := if first then delta / 700 else delta / 2
  settle (d + d / count) 0

def digitChar (d : Nat) : Char := if d < 26 then Char.ofNat (97 + d) else Char.ofNat (22 + d)

def digitValue? (c : Char) : Option Nat :=
  if 'a' ≤ c ∧ c ≤ 'z' then some (c.toNat - 97)
  else if 'A' ≤ c ∧ c ≤ 'Z' then some (c.toNat - 65)
  else if c.isDigit then some (c.toNat - 22)
  else none

/-- a distance in digits, lowest first -/
def digits (bias k q : Nat) : List Char :=
  let t := threshold k bias
  if q < t then [digitChar q]
  else digitChar (t + (q - t) % (36 - t)) :: digits bias (k + 36) ((q - t) / (36 - t))
termination_by q
decreasing_by
  have h1 := threshold_pos k bias
  have h2 := threshold_le k bias
  calc (q - threshold k bias) / (36 - threshold k bias)
      ≤ q - threshold k bias := Nat.div_le_self _ _
    _ < q := by omega

/-- What is written so far, the distance passed since, the bias, and how many are written. -/
structure Progress where
  text : List Char
  delta : Nat
  bias : Nat
  written : Nat

/-- Passes one character on the way to the next code. -/
def pass (basic code : Nat) (p : Progress) (c : Char) : Progress :=
  if c.toNat < code then { p with delta := p.delta + 1 }
  else if c.toNat = code then
    ⟨p.text ++ digits p.bias 36 p.delta, 0, adapt p.delta (p.written + 1) (p.written = basic),
      p.written + 1⟩
  else p

/-- Writes all characters of one code after the other, from `next` upwards. -/
def passCodes (label : List Char) (basic : Nat) : List Nat → Nat → Progress → Progress
  | [], _, p => p
  | code :: codes, next, p =>
    let p := { p with delta := p.delta + (code - next) * (p.written + 1) }
    let p := label.foldl (pass basic code) p
    passCodes label basic codes (code + 1) { p with delta := p.delta + 1 }

def encode (label : List Char) : List Char :=
  let basic := label.filter fun c => c.toNat < 128
  let codes := ((label.filter fun c => 128 ≤ c.toNat).map Char.toNat).mergeSort.eraseDups
  let p := passCodes label basic.length codes 128 ⟨[], 0, 72, basic.length⟩
  basic ++ (if basic.isEmpty then [] else ['-']) ++ p.text

/-- One distance: what it adds, and the rest. -/
def distance? (bias : Nat) : Nat → Nat → Nat → List Char → Option (Nat × List Char)
  | _, _, _, [] => none
  | k, weight, sum, c :: rest =>
    match digitValue? c with
    | none => none
    | some d =>
      let t := threshold k bias
      let sum := sum + d * weight
      if d < t then some (sum, rest) else distance? bias (k + 36) (weight * (36 - t)) sum rest

/-- Inserts one character after the other; `first` holds until one is inserted. -/
def insertAll : Nat → Bool → List Char → Nat → Nat → Nat → List Char → Option (List Char)
  | 0, _, _, _, _, _, _ => none
  | _ + 1, _, label, _, _, _, [] => some label
  | fuel + 1, first, label, code, position, bias, s =>
    match distance? bias 36 1 0 s with
    | none => none
    | some (d, rest) =>
      let total := position + d
      let count := label.length + 1
      let code := code + total / count
      let place := total % count
      if 0x10FFFF < code ∨ (0xD800 ≤ code ∧ code < 0xE000) then none
      else
        insertAll fuel false (label.take place ++ Char.ofNat code :: label.drop place) code
          (place + 1) (adapt d count first) rest

def decode? (s : List Char) : Option (List Char) :=
  let tail := (s.reverse.takeWhile (· ≠ '-')).reverse
  let basic := (s.take (s.length - tail.length)).dropLast
  if s.isEmpty ∨ basic.any (fun c => 128 ≤ c.toNat) then none
  else insertAll (s.length + 1) true basic 128 0 72 tail

end Coalesce.Punycode
