/-!
# Bytes as text

* `Text.bytes`      the UTF-8 bytes of a text;
* `Text.ofBytes?`   the text of bytes that are UTF-8 from end to end;
* `Text.ofBytes`    the text of any bytes: what is no character becomes a replacement character,
                    one for each longest beginning of a character.
-/

namespace Coalesce.Text

def bytes (s : String) : List UInt8 := s.toList.flatMap String.utf8EncodeChar

/-- How a character goes on: the bytes still owed, and the least and greatest value of the next. -/
structure Owed where
  count : Nat
  low : Nat
  high : Nat
  code : Nat

/-- A first byte: a whole character, the beginning of a longer one, or neither. -/
def lead (b : Nat) : Except Unit (Char ⊕ Owed) :=
  if b < 0x80 then .ok (.inl (Char.ofNat b))
  else if 0xC2 ≤ b ∧ b ≤ 0xDF then .ok (.inr ⟨1, 0x80, 0xBF, b - 0xC0⟩)
  else if b = 0xE0 then .ok (.inr ⟨2, 0xA0, 0xBF, 0⟩)
  else if b = 0xED then .ok (.inr ⟨2, 0x80, 0x9F, 0xD⟩)
  else if 0xE1 ≤ b ∧ b ≤ 0xEF then .ok (.inr ⟨2, 0x80, 0xBF, b - 0xE0⟩)
  else if b = 0xF0 then .ok (.inr ⟨3, 0x90, 0xBF, 0⟩)
  else if 0xF1 ≤ b ∧ b ≤ 0xF3 then .ok (.inr ⟨3, 0x80, 0xBF, b - 0xF0⟩)
  else if b = 0xF4 then .ok (.inr ⟨3, 0x80, 0x8F, 4⟩)
  else .error ()

/-- The state between bytes: nothing open, or a character begun. -/
abbrev Open := Option Owed

/-- One byte: the state after it and the characters it completes, none for a replacement. -/
def step (state : Open) (byte : UInt8) : Open × List (Option Char) :=
  let b := byte.toNat
  let first : Open × List (Option Char) :=
    match lead b with
    | .ok (.inl c) => (none, [some c])
    | .ok (.inr o) => (some o, [])
    | .error () => (none, [none])
  match state with
  | none => first
  | some o =>
    if o.low ≤ b ∧ b ≤ o.high then
      let code := o.code * 64 + (b - 0x80)
      if o.count ≤ 1 then (none, [some (Char.ofNat code)])
      else (some ⟨o.count - 1, 0x80, 0xBF, code⟩, [])
    else (first.1, none :: first.2)

/-- Characters, last first, after those found so far. -/
def decodeFrom (state : Open) (found : List (Option Char)) : List UInt8 → List (Option Char)
  | [] => if state.isSome then none :: found else found
  | b :: rest =>
    let (state, cs) := step state b
    decodeFrom state (cs.reverse ++ found) rest

/-- The characters of bytes, none where there is no character. -/
def decode (bs : List UInt8) : List (Option Char) := (decodeFrom none [] bs).reverse

def ofBytes? (bs : List UInt8) : Option String := ((decode bs).mapM id).map String.ofList

def ofBytes (bs : List UInt8) : String :=
  String.ofList ((decode bs).map fun c => c.getD '\uFFFD')

end Coalesce.Text
