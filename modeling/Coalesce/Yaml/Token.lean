import Coalesce.Yaml.Scalar
import Coalesce.Yaml.Tag

/-!
# The tokens of a YAML text

* `Token`          a mark, a bracket, a key, a scalar, …; the beginnings and ends of blocks, which
                   are only visible as indents, are tokens too;
* `Scan`           a text read so far: the tokens found, the indents of the open blocks, the depth
                   of brackets, and at each depth the token that may turn out to be a key;
* `Token.scan`     the tokens of a text.

A key is known by the colon behind it.  So the place of every possible key is kept, and when its
colon comes, the tokens that begin a key, and a mapping if need be, are put there.
-/

namespace Coalesce.Yaml

open Decode

/-- What a scalar was written as. -/
inductive ScalarStyle where
  | plain
  | quoted
  | literal
  | folded
  deriving DecidableEq

/-- A piece of YAML text. -/
inductive Token where
  | directive (d : Directive)
  | documentStart
  | documentEnd
  | blockSequenceStart
  | blockMappingStart
  | blockEnd
  | flowSequenceStart
  | flowSequenceEnd
  | flowMappingStart
  | flowMappingEnd
  | blockEntry
  | flowEntry
  | key
  | value
  | alias (name : String)
  | anchor (name : String)
  | tag (t : Tag)
  | scalar (style : ScalarStyle) (text : String)
  deriving DecidableEq

/-- A token that may be a key: how many tokens stand before it, and where it begins.  In some places
only a key may stand. -/
structure PossibleKey where
  before : Nat
  place : Cursor
  required : Bool

/-- A text read so far; tokens are kept last first. -/
structure Scan where
  cursor : Cursor
  tokens : List Token := []
  /-- the indent of the innermost block, and of those around it -/
  indent : Int := -1
  outer : List Int := []
  /-- the depth of brackets is the number of keys that may be found further out -/
  current : Option PossibleKey := none
  further : List (Option PossibleKey) := []
  keyAllowed : Bool := true

namespace Scan

/-- inside brackets -/
def inFlow (s : Scan) : Bool := !s.further.isEmpty

def add (s : Scan) (t : Token) : Scan := { s with tokens := t :: s.tokens }

/-- puts a token behind the first ones -/
def insert (s : Scan) (before : Nat) (t : Token) : Scan :=
  let later := s.tokens.take (s.tokens.length - before)
  { s with tokens := later ++ t :: s.tokens.drop later.length }

/-- past one character that is a token -/
def skip (s : Scan) : Scan := { s with cursor := s.cursor.next }

/-! ## possible keys -/

/-- The token is no key; in some places that is an error. -/
def dropKey (s : Scan) : Except Fault Scan :=
  if s.current.any (·.required) then .error .malformed else .ok { s with current := none }

/-- The token that begins here may be a key. -/
def saveKey (s : Scan) : Except Fault Scan :=
  if s.keyAllowed then do
    let s ← s.dropKey
    let required := !s.inFlow && s.indent = s.cursor.column
    return { s with current := some ⟨s.tokens.length, s.cursor, required⟩ }
  else .ok s

/-- A key stands on one line and is not longer than 1024 characters. -/
def isStale (c : Cursor) (k : PossibleKey) : Bool :=
  k.place.line < c.line || k.place.index + 1024 < c.index

/-- Forgets the keys that are too long. -/
def dropStale (s : Scan) : Except Fault Scan :=
  let stale (k : Option PossibleKey) : Bool := k.any (isStale s.cursor)
  let keep (k : Option PossibleKey) : Option PossibleKey := if stale k then none else k
  if (s.current :: s.further).any fun k => stale k && k.any (·.required) then .error .malformed
  else .ok { s with current := keep s.current, further := s.further.map keep }

/-! ## indents -/

/-- A block begins in this column, unless it is open already. -/
def openBlock (s : Scan) (column : Nat) (before : Nat) (t : Token) : Scan :=
  if !s.inFlow ∧ s.indent < column then
    { s.insert before t with indent := column, outer := s.indent :: s.outer }
  else s

/-- The blocks that end before this column. -/
def closed (column indent : Int) : List Int → Int × List Int × Nat
  | [] => (indent, [], 0)
  | i :: outer =>
    if column < indent then
      let (indent, outer, n) := closed column i outer
      (indent, outer, n + 1)
    else (indent, i :: outer, 0)

/-- Ends the blocks that a column does not belong to. -/
def closeBlocks (s : Scan) (column : Int) : Scan :=
  if s.inFlow then s
  else
    let (indent, outer, n) := closed column s.indent s.outer
    { s with indent, outer, tokens := List.replicate n .blockEnd ++ s.tokens }

/-! ## blanks and comments -/


/-- Past blanks, comments and line breaks; `comment` is set inside a comment. -/
def gap (flow keyAllowed comment lineStart : Bool) : List Char → List Char × Bool
  | [] => ([], keyAllowed)
  | c :: rest =>
    if isBreak c then gap flow (!flow || keyAllowed) false true rest
    else if comment then gap flow keyAllowed true false rest
    else if c = '\uFEFF' && lineStart then gap flow keyAllowed false false rest
    else if c = ' ' || (c = '\t' && (flow || !keyAllowed)) then
      gap flow keyAllowed false false rest
    else if c = '#' then gap flow keyAllowed true false rest
    else (c :: rest, keyAllowed)

/-- To the next token. -/
def toToken (s : Scan) : Scan :=
  let (rest, keyAllowed) := gap s.inFlow s.keyAllowed false (s.cursor.column = 0) s.cursor.rest
  { s with cursor := s.cursor.toRest rest, keyAllowed }

/-! ## single tokens -/

/-- A mark between documents; it ends all blocks. -/
def marker (s : Scan) (t : Token) : Except Fault Scan := do
  let s ← (s.closeBlocks (-1)).dropKey
  return { s.add t with cursor := s.cursor.skip 3, keyAllowed := false }

def directive (s : Scan) : Except Fault Scan := do
  let s ← (s.closeBlocks (-1)).dropKey
  let (d, c) ← Directive.read s.cursor.next
  let rest ← lineEnd c.rest
  return { s.add (.directive d) with cursor := c.toRest rest, keyAllowed := false }

def openBracket (s : Scan) (t : Token) : Except Fault Scan := do
  let s ← s.saveKey
  return { s.skip.add t with
    current := none, further := s.current :: s.further, keyAllowed := true }

def closeBracket (s : Scan) (t : Token) : Except Fault Scan := do
  let s ← s.dropKey
  let s := match s.further with
    | k :: further => { s with current := k, further }
    | [] => s
  return { s.skip.add t with keyAllowed := false }

def flowEntry (s : Scan) : Except Fault Scan := do
  let s ← s.dropKey
  return { s.skip.add .flowEntry with keyAllowed := true }

/-- A mark in front of an entry or a key; it may begin a block. -/
def blockMark (s : Scan) (block : Token) : Except Fault Scan :=
  if s.inFlow then .ok s
  else if s.keyAllowed then .ok (s.openBlock s.cursor.column s.tokens.length block)
  else .error .malformed

def blockEntry (s : Scan) : Except Fault Scan := do
  let s ← (← s.blockMark .blockSequenceStart).dropKey
  return { s.skip.add .blockEntry with keyAllowed := true }

def key (s : Scan) : Except Fault Scan := do
  let s ← (← s.blockMark .blockMappingStart).dropKey
  return { s.skip.add .key with keyAllowed := !s.inFlow }

def value (s : Scan) : Except Fault Scan :=
  match s.current with
  | some k =>
    let s := (s.insert k.before .key).openBlock k.place.column k.before .blockMappingStart
    .ok { s.skip.add .value with current := none, keyAllowed := false }
  | none => do
    let s ← s.blockMark .blockMappingStart
    return { s.skip.add .value with keyAllowed := !s.inFlow }

/-- A name behind a mark. -/
def named (s : Scan) (t : String → Token) : Except Fault Scan := do
  let s ← s.saveKey
  let (name, c) ← anchorName s.cursor.next
  return { s.add (t name) with cursor := c, keyAllowed := false }

def tag (s : Scan) : Except Fault Scan := do
  let s ← s.saveKey
  let (t, c) ← Tag.read s.inFlow s.cursor
  return { s.add (.tag t) with cursor := c, keyAllowed := false }

def blockScalar (s : Scan) (literal : Bool) : Except Fault Scan := do
  let s ← s.dropKey
  let (text, rest) ← block literal s.indent s.cursor.next.rest
  let style : ScalarStyle := if literal then .literal else .folded
  return { s.add (.scalar style (String.ofList text)) with
    cursor := s.cursor.toRest rest, keyAllowed := true }

def quotedScalar (s : Scan) (double : Bool) : Except Fault Scan := do
  let s ← s.saveKey
  let inside := s.cursor.next.rest
  let (text, rest) ← if double then doubleQuoted [] {} 0 [] inside else quoted [] [] inside
  return { s.add (.scalar .quoted (String.ofList text)) with
    cursor := s.cursor.toRest rest, keyAllowed := false }

def plainScalar (s : Scan) : Except Fault Scan := do
  let s ← s.saveKey
  let (text, rest, broken) ← plain s.inFlow (s.indent + 1).toNat s.cursor.column [] [] s.cursor.rest
  return { s.add (.scalar .plain (String.ofList text)) with
    cursor := s.cursor.toRest rest, keyAllowed := broken }

/-- characters that no plain scalar begins with -/
def isIndicator (c : Char) : Bool :=
  isFlowIndicator c || "-?:#&*!|>'\"%@\x60".toList.contains c

/-- One token, which begins with this character. -/
def token (s : Scan) (c : Char) : Except Fault Scan :=
  let lineStart := s.cursor.column = 0
  let alone := s.cursor.endsAt 1
  if lineStart ∧ c = '%' then s.directive
  else if lineStart ∧ isMarker '-' s.cursor.rest then s.marker .documentStart
  else if lineStart ∧ isMarker '.' s.cursor.rest then s.marker .documentEnd
  else if c = '[' then s.openBracket .flowSequenceStart
  else if c = '{' then s.openBracket .flowMappingStart
  else if c = ']' then s.closeBracket .flowSequenceEnd
  else if c = '}' then s.closeBracket .flowMappingEnd
  else if c = ',' then s.flowEntry
  else if c = '-' ∧ alone then s.blockEntry
  else if c = '?' ∧ (s.inFlow ∨ alone) then s.key
  else if c = ':' ∧ (s.inFlow ∨ alone) then s.value
  else if c = '*' then s.named .alias
  else if c = '&' then s.named .anchor
  else if c = '!' then s.tag
  else if c = '|' ∧ !s.inFlow then s.blockScalar true
  else if c = '>' ∧ !s.inFlow then s.blockScalar false
  else if c = '\'' then s.quotedScalar false
  else if c = '"' then s.quotedScalar true
  else if !(isIndicator c || isGap c) ∨ c = '-' ∨ (!s.inFlow ∧ (c = '?' ∨ c = ':')) then
    s.plainScalar
  else .error .malformed

/-- All tokens from here on; every one takes some of the text. -/
def run (s : Scan) : Except Fault (List Token) :=
  match s.toToken.dropStale with
  | .error e => .error e
  | .ok found =>
    match found.cursor.peek? with
    | none =>
      match (found.closeBlocks (-1)).dropKey with
      | .error e => .error e
      | .ok last => .ok last.tokens.reverse
    | some c =>
      match (found.closeBlocks found.cursor.column).token c with
      | .error e => .error e
      | .ok next =>
        if _h : next.cursor.rest.length < s.cursor.rest.length then run next
        else .error .malformed
termination_by s.cursor.rest.length

end Scan

def Token.scan (text : String) : Except Fault (List Token) := do
  let chars ← cleaned text
  Scan.run { cursor := { rest := chars } }

end Coalesce.Yaml
