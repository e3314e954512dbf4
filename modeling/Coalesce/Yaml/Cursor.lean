import Coalesce.Decode.Fault

/-!
# Places in a YAML text

* `isBreak`, `isBlank`     the characters that end a line, and those between words;
* `cleaned`                the text as it is read: every line break of one character, and an error
                           where a character is not allowed;
* `Cursor`                 what is left of a text, and where in the text that is.
-/

namespace Coalesce.Yaml

open Decode

/-- the breaks left in a cleaned text -/
def isBreak (c : Char) : Bool := c = '\n' || c = '\u2028' || c = '\u2029'

def isBlank (c : Char) : Bool := c = ' ' || c = '\t'

/-- blanks and breaks -/
def isGap (c : Char) : Bool := isBlank c || isBreak c

/-- a letter, a digit, a line or a stroke -/
def isWordChar (c : Char) : Bool := c.isAlphanum || c = '_' || c = '-'

def hexValue? (c : Char) : Option Nat :=
  if c.isDigit then some (c.toNat - 48)
  else if 'a' ≤ c ∧ c ≤ 'f' then some (c.toNat - 87)
  else if 'A' ≤ c ∧ c ≤ 'F' then some (c.toNat - 55)
  else none

/-- Controls other than tabs and breaks are not allowed, nor are the last two of the basic plane. -/
def isAllowed (c : Char) : Bool :=
  let n := c.toNat
  n = 9 || n = 10 || n = 13 || (0x20 ≤ n && n ≤ 0x7E) || n = 0x85
    || (0xA0 ≤ n && n ≤ 0xFFFD) || 0x10000 ≤ n

/-- One character for every line break; the two wide separators stay themselves. -/
def unifyBreaks : List Char → List Char
  | '\r' :: '\n' :: rest => '\n' :: unifyBreaks rest
  | c :: rest => (if c = '\r' || c = '\u0085' then '\n' else c) :: unifyBreaks rest
  | [] => []

/-- The text as it is read; a mark of the byte order may stand in front. -/
def cleaned (text : String) : Except Fault (List Char) :=
  let chars := match text.toList with
    | '\uFEFF' :: rest => rest
    | chars => chars
  if chars.all isAllowed then .ok (unifyBreaks chars) else .error .malformed

structure Cursor where
  rest : List Char
  index : Nat := 0
  line : Nat := 0
  column : Nat := 0

namespace Cursor

def peek? (c : Cursor) : Option Char := c.rest.head?

/-- the character behind the next ones -/
def look? (c : Cursor) (ahead : Nat) : Option Char := (c.rest.drop ahead).head?

/-- whether a word ends there: at a blank, a break, or the end -/
def endsAt (c : Cursor) (ahead : Nat) : Bool := (c.look? ahead).all isGap

/-- past one character -/
def next (c : Cursor) : Cursor :=
  match c.rest with
  | [] => c
  | a :: rest =>
    if isBreak a then ⟨rest, c.index + 1, c.line + 1, 0⟩
    else ⟨rest, c.index + 1, c.line, c.column + 1⟩

/-- past some characters -/
def skip : Nat → Cursor → Cursor
  | 0, c => c
  | n + 1, c => skip n c.next

/-- on to a later rest of the text -/
def toRest (c : Cursor) (rest : List Char) : Cursor := c.skip (c.rest.length - rest.length)

/-- past all characters of a kind -/
def skipWhile (c : Cursor) (kind : Char → Bool) : Cursor := c.toRest (c.rest.dropWhile kind)

/-- the characters of a kind, and the place behind them -/
def takeWhile (c : Cursor) (kind : Char → Bool) : List Char × Cursor :=
  (c.rest.takeWhile kind, c.skipWhile kind)

end Cursor

/-- whether a line begins with three times this character, alone -/
def isMarker (mark : Char) (line : List Char) : Bool :=
  match line with
  | a :: b :: c :: rest => a = mark && b = mark && c = mark && rest.head?.all isGap
  | _ => false

/-- whether a line separates documents -/
def separates (line : List Char) : Bool := isMarker '-' line || isMarker '.' line

end Coalesce.Yaml
