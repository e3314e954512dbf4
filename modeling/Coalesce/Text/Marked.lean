import Coalesce.Text.Utf8

/-!
# Text behind a mark

`Text.ofMarked` reads bytes that may begin with a mark of their order: text in units of two bytes
when the mark says so, and UTF-8 otherwise.  What is no character becomes a replacement character.
-/

namespace Coalesce.Text

/-- the units of two bytes, the higher one first or last; none for half a unit -/
def units (highFirst : Bool) : List UInt8 → List (Option Nat)
  | a :: b :: rest =>
    let (high, low) := if highFirst then (a, b) else (b, a)
    some (high.toNat * 256 + low.toNat) :: units highFirst rest
  | [_] => [none]
  | [] => []

/-- The characters of units; two units that belong together make one. -/
def ofUnits : List (Option Nat) → List Char
  | [] => []
  | none :: rest => '\uFFFD' :: ofUnits rest
  | [some u] => [if 0xD800 ≤ u ∧ u ≤ 0xDFFF then '\uFFFD' else Char.ofNat u]
  | some u :: some v :: rest =>
    if 0xD800 ≤ u ∧ u ≤ 0xDBFF ∧ 0xDC00 ≤ v ∧ v ≤ 0xDFFF then
      Char.ofNat (0x10000 + (u - 0xD800) * 0x400 + (v - 0xDC00)) :: ofUnits rest
    else (if 0xD800 ≤ u ∧ u ≤ 0xDFFF then '\uFFFD' else Char.ofNat u) :: ofUnits (some v :: rest)
  | some u :: none :: rest =>
    if 0xD800 ≤ u ∧ u ≤ 0xDBFF then ofUnits (none :: rest)
    else (if 0xDC00 ≤ u ∧ u ≤ 0xDFFF then '\uFFFD' else Char.ofNat u) :: ofUnits (none :: rest)

def ofMarked : List UInt8 → String
  | 0xEF :: 0xBB :: 0xBF :: rest => ofBytes rest
  | 0xFF :: 0xFE :: rest => String.ofList (ofUnits (units false rest))
  | 0xFE :: 0xFF :: rest => String.ofList (ofUnits (units true rest))
  | bs => ofBytes bs

end Coalesce.Text
