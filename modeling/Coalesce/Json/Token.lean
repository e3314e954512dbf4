import Coalesce.Json.Value
import Coalesce.Number.Word

/-!
# The tokens of a JSON text

* `Token`         a bracket, a comma, a colon, a word, a numeral, a string, or `junk` where the
                  text is no JSON;
* `Numeral`       a number as written; `Numeral.value?` is the number it denotes;
* `Token.scan`    the tokens of a text.

The scanner is an automaton fed one character at a time, so it is total by construction; after
`junk` it reads nothing more.  A string keeps whether every escaped half of a character found its
other half, and a numeral whether it is too large, because text that is skipped may hold both.
-/

namespace Coalesce.Json

/-- A number as written: digits before and after the point, and the power of ten. -/
structure Numeral where
  negative : Bool
  whole : List Nat
  fraction : Option (List Nat)
  power : Option Int
  deriving DecidableEq

namespace Numeral

/-- Digits as a 64-bit number: the digits taken, and how many were left out. -/
def collect (start : Nat) : List Nat → Nat × Nat
  | [] => (start, 0)
  | d :: rest =>
    let next := start * 10 + d
    if next ≤ Word.unsignedMax then collect next rest else (start, rest.length + 1)

/-- The number denoted: an integer when it is written as one and fits 64 bits, else a double, in
which digits beyond 64 bits are dropped; none when the double would be infinite. -/
def value? (n : Numeral) : Option Number :=
  let (digits, dropped) := collect 0 n.whole
  match n.fraction, n.power, dropped with
  | none, none, 0 =>
    if n.negative then
      if digits = 0 ∨ -(digits : Int) < Word.signedMin then
        (Binary64.scaled true digits 0).map .real
      else some (.int (-(digits : Int)))
    else some (.int digits)
  | fraction, power, _ =>
    let after := fraction.getD []
    let (all, left) := collect digits after
    let taken : Nat := after.length - left
    (Binary64.scaled n.negative all ((dropped : Int) - taken + power.getD 0)).map .real

end Numeral

/-- A piece of JSON text. -/
inductive Token where
  | openArray
  | closeArray
  | openObject
  | closeObject
  | comma
  | colon
  | null
  | bool (value : Bool)
  | number (value : Numeral)
  /-- none when an escape names half a character alone -/
  | string (value : Option String)
  | junk
  deriving DecidableEq

namespace Token

/-- A character of a string, or an escaped half of one. -/
inductive Piece where
  | char (c : Char)
  | half (code : Nat)
  deriving DecidableEq

/-- Puts halves together: an upper half needs a lower half right behind it. -/
def join : List Piece → Option (List Char)
  | [] => some []
  | .char c :: rest => (join rest).map (c :: ·)
  | .half h :: .half l :: rest =>
    if h < 0xDC00 ∧ 0xDC00 ≤ l then
      (join rest).map (Char.ofNat (0x10000 + (h - 0xD800) * 0x400 + (l - 0xDC00)) :: ·)
    else none
  | .half _ :: _ => none

/-- How far a numeral has come. -/
inductive Stage where
  | sign
  | zero
  | whole
  | point
  | fraction
  | powerMark
  | powerSign
  | power
  deriving DecidableEq

/-- A numeral in the making, digits last first. -/
structure Draft where
  stage : Stage
  negative : Bool
  whole : List Nat
  fraction : List Nat
  powerNegative : Bool
  power : List Nat

namespace Draft

def ofDigits (digits : List Nat) : Nat := digits.foldl (fun n d => n * 10 + d) 0

/-- the numeral, where the grammar lets it end -/
def done? (d : Draft) : Option Numeral :=
  let fraction := if d.fraction.isEmpty then none else some d.fraction.reverse
  match d.stage with
  | .zero | .whole | .fraction => some ⟨d.negative, d.whole.reverse, fraction, none⟩
  | .power =>
    let p : Int := ofDigits d.power.reverse
    some ⟨d.negative, d.whole.reverse, fraction, some (if d.powerNegative then -p else p)⟩
  | .sign | .point | .powerMark | .powerSign => none

/-- What a further character does: `ok` continues, `error true` ends the numeral before it, and
`error false` is no JSON. -/
def next (d : Draft) (c : Char) : Except Bool Draft :=
  let digit : Option Nat := if c.isDigit then some (c.toNat - 48) else none
  let mark : Bool := c == 'e' || c == 'E'
  match d.stage, digit with
  | .sign, some 0 => .ok { d with stage := .zero, whole := [0] }
  | .sign, some n => .ok { d with stage := .whole, whole := [n] }
  | .sign, none => .error false
  | .zero, some _ => .error false
  | .whole, some n => .ok { d with whole := n :: d.whole }
  | .zero, none | .whole, none =>
    if c = '.' then .ok { d with stage := .point }
    else if mark then .ok { d with stage := .powerMark }
    else .error true
  | .point, some n => .ok { d with stage := .fraction, fraction := [n] }
  | .point, none => .error false
  | .fraction, some n => .ok { d with fraction := n :: d.fraction }
  | .fraction, none => if mark then .ok { d with stage := .powerMark } else .error true
  | .powerMark, some n => .ok { d with stage := .power, power := [n] }
  | .powerMark, none =>
    if c = '+' then .ok { d with stage := .powerSign }
    else if c = '-' then .ok { d with stage := .powerSign, powerNegative := true }
    else .error false
  | .powerSign, some n => .ok { d with stage := .power, power := [n] }
  | .powerSign, none => .error false
  | .power, some n => .ok { d with power := n :: d.power }
  | .power, none => .error true

end Draft

/-- Where the scanner stands; pieces of a string are kept last first. -/
inductive Scan where
  | between
  | word (left : List Char) (token : Token)
  | number (draft : Draft)
  | text (pieces : List Piece)
  | escape (pieces : List Piece)
  | hex (pieces : List Piece) (left : Nat) (code : Nat)
  | dead

def hexValue? (c : Char) : Option Nat :=
  if c.isDigit then some (c.toNat - 48)
  else if 'a' ≤ c ∧ c ≤ 'f' then some (c.toNat - 87)
  else if 'A' ≤ c ∧ c ≤ 'F' then some (c.toNat - 55)
  else none

/-- one character between tokens -/
def start (c : Char) : Scan × List Token :=
  if c = ' ' ∨ c = '\n' ∨ c = '\t' ∨ c = '\r' then (.between, [])
  else if c = '[' then (.between, [.openArray])
  else if c = ']' then (.between, [.closeArray])
  else if c = '{' then (.between, [.openObject])
  else if c = '}' then (.between, [.closeObject])
  else if c = ',' then (.between, [.comma])
  else if c = ':' then (.between, [.colon])
  else if c = '"' then (.text [], [])
  else if c = 'n' then (.word ['u', 'l', 'l'] .null, [])
  else if c = 't' then (.word ['r', 'u', 'e'] (.bool true), [])
  else if c = 'f' then (.word ['a', 'l', 's', 'e'] (.bool false), [])
  else if c = '-' then (.number ⟨.sign, true, [], [], false, []⟩, [])
  else if c = '0' then (.number ⟨.zero, false, [0], [], false, []⟩, [])
  else if c.isDigit then (.number ⟨.whole, false, [c.toNat - 48], [], false, []⟩, [])
  else (.dead, [.junk])

/-- the character named by a one-letter escape -/
def escaped? (c : Char) : Option Char :=
  if c = '"' ∨ c = '\\' ∨ c = '/' then some c
  else if c = 'b' then some '\x08'
  else if c = 'f' then some '\x0c'
  else if c = 'n' then some '\n'
  else if c = 'r' then some '\r'
  else if c = 't' then some '\t'
  else none

/-- One character: the state after it and the tokens it completes. -/
def step (s : Scan) (c : Char) : Scan × List Token :=
  match s with
  | .between => start c
  | .word [] t => (start c).map id (t :: ·)
  | .word [w] t => if c = w then (.between, [t]) else (.dead, [.junk])
  | .word (w :: left) t => if c = w then (.word left t, []) else (.dead, [.junk])
  | .number d =>
    match d.next c with
    | .ok d => (.number d, [])
    | .error true =>
      match d.done? with
      | some n => (start c).map id (.number n :: ·)
      | none => (.dead, [.junk])
    | .error false => (.dead, [.junk])
  | .text pieces =>
    if c = '"' then (.between, [.string ((join pieces.reverse).map String.ofList)])
    else if c = '\\' then (.escape pieces, [])
    else if c.toNat < 32 then (.dead, [.junk])
    else (.text (.char c :: pieces), [])
  | .escape pieces =>
    if c = 'u' then (.hex pieces 4 0, [])
    else match escaped? c with
      | some e => (.text (.char e :: pieces), [])
      | none => (.dead, [.junk])
  | .hex pieces left code =>
    match hexValue? c with
    | none => (.dead, [.junk])
    | some v =>
      let code := code * 16 + v
      if left ≤ 1 then
        let piece : Piece := if 0xD800 ≤ code ∧ code < 0xE000 then .half code
          else .char (Char.ofNat code)
        (.text (piece :: pieces), [])
      else (.hex pieces (left - 1) code, [])
  | .dead => (.dead, [])

/-- what the end of the text completes -/
def finish : Scan → List Token
  | .between | .dead => []
  | .word [] t => [t]
  | .number d => match d.done? with
    | some n => [.number n]
    | none => [.junk]
  | .word _ _ | .text _ | .escape _ | .hex _ _ _ => [.junk]

/-- The tokens of a text, last first, after those found so far. -/
def scanFrom (s : Scan) (found : List Token) : List Char → List Token
  | [] => (finish s).reverse ++ found
  | c :: rest =>
    let (s, ts) := step s c
    scanFrom s (ts.reverse ++ found) rest

def scan (text : String) : List Token := (scanFrom .between [] text.toList).reverse

end Token

end Coalesce.Json
