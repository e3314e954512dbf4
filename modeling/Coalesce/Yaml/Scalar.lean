import Coalesce.Yaml.Cursor

/-!
# Scalars in YAML texts

* `folded`          what a gap between words stands for: blanks for themselves, one line break for a
                    blank, and of several the first is dropped;
* `quoted`          a scalar in single quotes, `doubleQuoted` one in double quotes with escapes;
* `plain`           a scalar without quotes, which ends where an indicator or a lesser indent is;
* `BlockScalar`     a literal or folded block, read one character at a time.

Every reader gives the text and what is left behind it.
-/

namespace Coalesce.Yaml

open Decode

/-- What a gap stands for: none of its blanks when it holds a break. -/
def folded (gap : List Char) : List Char :=
  match gap.filter isBreak with
  | [] => gap
  | '\n' :: [] => [' ']
  | '\n' :: more => more
  | breaks => breaks

/-- whether the gap ends at the beginning of a line -/
def endsLine (gap : List Char) : Bool := gap.getLast?.any isBreak

/-! ## quoted scalars -/

/-- A scalar in single quotes, from behind the first one; text and gap are kept last first. -/
def quoted (text gap : List Char) : List Char → Except Fault (List Char × List Char)
  | [] => .error .malformed
  | c :: rest =>
    if isGap c then quoted text (c :: gap) rest
    else
      let text := (folded gap.reverse).reverse ++ text
      if endsLine gap.reverse && separates (c :: rest) then .error .malformed
      else if c = '\'' then
        match rest with
        | '\'' :: rest => quoted ('\'' :: text) [] rest
        | rest => .ok (text.reverse, rest)
      else quoted (c :: text) [] rest

/-- What an escape of one letter stands for. -/
def escaped? : Char → Option Char
  | '0' => some '\x00'
  | 'a' => some '\x07'
  | 'b' => some '\x08'
  | 't' | '\t' => some '\t'
  | 'n' => some '\n'
  | 'v' => some '\x0b'
  | 'f' => some '\x0c'
  | 'r' => some '\r'
  | 'e' => some '\x1b'
  | ' ' => some ' '
  | '"' => some '"'
  | '/' => some '/'
  | '\\' => some '\\'
  | 'N' => some '\u0085'
  | '_' => some '\u00a0'
  | 'L' => some '\u2028'
  | 'P' => some '\u2029'
  | _ => none

/-- how many digits follow the letter of an escape by number -/
def escapeDigits? : Char → Option Nat
  | 'x' => some 2
  | 'u' => some 4
  | 'U' => some 8
  | _ => none

/-- the character of a number in hexadecimal -/
def charOfHex? (digits : List Char) : Option Char := do
  let values ← digits.mapM hexValue?
  let n := values.foldl (fun n d => n * 16 + d) 0
  if n.isValidChar then some (Char.ofNat n) else none

/-- A gap in double quotes: behind an escaped break its blanks and that break do not count. -/
structure Gap where
  chars : List Char := []
  escaped : Bool := false

def Gap.text (g : Gap) : List Char :=
  if g.escaped then g.chars.filter isBreak else folded g.chars

def Gap.endsLine (g : Gap) : Bool :=
  if g.chars.isEmpty then g.escaped else Yaml.endsLine g.chars

/-- A scalar in double quotes, from behind the first one; `digits` are still owed to an escape. -/
def doubleQuoted (text : List Char) (gap : Gap) (owed : Nat) (digits : List Char) :
    List Char → Except Fault (List Char × List Char)
  | [] => .error .malformed
  | c :: rest =>
    match owed with
    | n + 1 =>
      let digits := digits ++ [c]
      if n = 0 then
        match charOfHex? digits with
        | some found => doubleQuoted (found :: text) {} 0 [] rest
        | none => .error .malformed
      else doubleQuoted text {} n digits rest
    | 0 =>
      if isGap c then doubleQuoted text { gap with chars := gap.chars ++ [c] } 0 [] rest
      else
        let text := gap.text.reverse ++ text
        if gap.endsLine && separates (c :: rest) then .error .malformed
        else if c = '"' then .ok (text.reverse, rest)
        else if c = '\\' then
          match rest with
          | [] => .error .malformed
          | e :: rest =>
            if isBreak e then doubleQuoted text { escaped := true } 0 [] rest
            else
              match escaped? e, escapeDigits? e with
              | some found, _ => doubleQuoted (found :: text) {} 0 [] rest
              | none, some n => doubleQuoted text {} n [] rest
              | none, none => .error .malformed
        else doubleQuoted (c :: text) {} 0 [] rest

/-! ## plain scalars -/

/-- characters that end words inside brackets -/
def isFlowIndicator (c : Char) : Bool :=
  c = ',' || c = '[' || c = ']' || c = '{' || c = '}'

/-- A plain scalar: its text, what is left, and whether it ended behind a line break.  It stands
inside brackets or not, and the lines that continue it are indented by at least `indent`. -/
def plain (flow : Bool) (indent : Nat) (column : Nat) (text gap : List Char) :
    List Char → Except Fault (List Char × List Char × Bool)
  | [] => .ok (text.reverse, [], gap.any isBreak)
  | c :: rest =>
    let done : Except Fault (List Char × List Char × Bool) :=
      .ok (text.reverse, c :: rest, gap.any isBreak)
    if isBreak c then plain flow indent 0 text (c :: gap) rest
    else if isBlank c then
      if c = '\t' && gap.any isBreak && column < indent then .error .malformed
      else plain flow indent (column + 1) text (c :: gap) rest
    else if !gap.isEmpty && ((!flow && column < indent)
        || (column = 0 && separates (c :: rest)) || c = '#') then done
    else if flow && c = ':' && rest.head?.any (fun n => isFlowIndicator n || n = '?') then
      .error .malformed
    else if (c = ':' && rest.head?.all isGap) || (flow && isFlowIndicator c) then done
    else
      plain flow indent (column + 1) (c :: (folded gap.reverse).reverse ++ text) [] rest

/-! ## block scalars -/

/-- What becomes of the line breaks at the end of a block. -/
inductive Chomping where
  | clip
  | strip
  | keep
  deriving DecidableEq

/-- A block as far as it was read; texts are kept last first. -/
structure BlockScalar where
  literal : Bool
  /-- the least indent the block may have -/
  least : Nat
  /-- the indent of the block; none before its first line -/
  indent : Option Nat
  /-- the widest line of blanks before the first one -/
  widest : Nat := 0
  column : Nat := 0
  inLine : Bool := false
  text : List Char := []
  /-- the break behind the last line -/
  leading : Option Char := none
  /-- whether the last line began with a blank -/
  leadingBlank : Bool := false
  /-- the breaks of the blank lines behind it -/
  trailing : List Char := []

namespace BlockScalar

/-- The text before a line that begins with this character. -/
def joined (b : BlockScalar) (c : Char) : List Char :=
  if !b.literal && b.leading = some '\n' && !b.leadingBlank && !isBlank c then
    b.trailing ++ (if b.trailing.isEmpty then [' '] else []) ++ b.text
  else b.trailing ++ b.leading.toList ++ b.text

/-- The text at the end of the block. -/
def chomped (b : BlockScalar) (chomping : Chomping) : List Char :=
  let text := match chomping with
    | .clip => b.leading.toList ++ b.text
    | .strip => b.text
    | .keep => b.trailing ++ b.leading.toList ++ b.text
  text.reverse

/-- Reads on; gives the block at its end and what is left. -/
def read (b : BlockScalar) : List Char → Except Fault (BlockScalar × List Char)
  | [] => .ok (b, [])
  | c :: rest =>
    let before := b.indent.all (b.column < ·)
    if b.inLine then
      if isBreak c then
        read { b with inLine := false, column := 0, leading := some c, trailing := [] } rest
      else read { b with text := c :: b.text } rest
    else if c = ' ' && before then
      read { b with column := b.column + 1, widest := max b.widest (b.column + 1) } rest
    else if c = '\t' && before then .error .malformed
    else if isBreak c then read { b with column := 0, trailing := c :: b.trailing } rest
    else
      let indent := b.indent.getD (max b.widest b.least)
      if b.column = indent then
        read { b with
          indent := some indent, inLine := true, text := c :: b.joined c,
          leading := none, leadingBlank := isBlank c, trailing := [] } rest
      else .ok (b, c :: rest)

end BlockScalar

/-- the sign and the digit behind the indicator of a block, in either order -/
def blockHeader (s : List Char) : Except Fault (Chomping × Option Nat × List Char) :=
  let sign : List Char → Chomping × List Char
    | '+' :: rest => (.keep, rest)
    | '-' :: rest => (.strip, rest)
    | s => (.clip, s)
  let digit : List Char → Except Fault (Option Nat × List Char)
    | c :: rest =>
      if c = '0' then .error .malformed
      else if c.isDigit then .ok (some (c.toNat - 48), rest)
      else .ok (none, c :: rest)
    | [] => .ok (none, [])
  match s with
  | c :: _ =>
    if c = '+' || c = '-' then do
      let (chomping, s) := sign s
      let (increment, s) ← digit s
      return (chomping, increment, s)
    else do
      let (increment, s) ← digit s
      let (chomping, s) := if increment.isSome then sign s else (.clip, s)
      return (chomping, increment, s)
  | [] => .ok (.clip, none, [])

/-- What is left behind blanks and a comment, which end the line. -/
def lineEnd (s : List Char) : Except Fault (List Char) :=
  let s := s.dropWhile isBlank
  let s := if s.head? = some '#' then s.dropWhile fun c => !isBreak c else s
  match s with
  | [] => .ok []
  | c :: rest => if isBreak c then .ok rest else .error .malformed

/-- A block behind its indicator; `indent` is the indent of what it stands in. -/
def block (literal : Bool) (indent : Int) (s : List Char) :
    Except Fault (List Char × List Char) := do
  let (chomping, increment, s) ← blockHeader s
  let s ← lineEnd s
  let start : BlockScalar := {
    literal, least := max (indent + 1).toNat 1
    indent := increment.map fun n => if 0 ≤ indent then indent.toNat + n else n }
  let (b, rest) ← start.read s
  return (b.chomped chomping, rest)

end Coalesce.Yaml
