import Coalesce.Yaml.Cursor
import Coalesce.Text.Utf8

/-!
# Anchors, tags and directives

* `anchorName`      the name of an anchor or of an alias;
* `Tag`             a tag as written: a handle and the rest;
* `Tag.read`        a tag, from its exclamation mark on;
* `Directive.read`  a directive, from behind its percent sign on.

A tag may hold escaped bytes, so its rest is a list of bytes.
-/

namespace Coalesce.Yaml

open Decode

/-- A name, and what may stand behind it. -/
def anchorName (c : Cursor) : Except Fault (String × Cursor) :=
  let (name, c) := c.takeWhile isWordChar
  let ends := c.endsAt 0 || c.peek?.any fun a => "?:,]\x7d%@\x60".toList.contains a
  if name.isEmpty || !ends then .error .malformed else .ok (String.ofList name, c)

/-! ## tags -/

/-- A tag as written; without a handle the rest is the whole tag. -/
structure Tag where
  handle : String
  rest : List UInt8
  deriving DecidableEq

/-- characters of a tag; inside angle brackets a few more -/
def isTagChar (bracketed : Bool) (c : Char) : Bool :=
  isWordChar c || ";/?:@&=+$.!~*'()%".toList.contains c
    || (bracketed && (c = ',' || c = '[' || c = ']'))

/-- how many bytes a character has, by its first one -/
def byteCount? (first : Nat) : Option Nat :=
  if first < 0x80 then some 1
  else if 0xC0 ≤ first ∧ first < 0xE0 then some 2
  else if 0xE0 ≤ first ∧ first < 0xF0 then some 3
  else if 0xF0 ≤ first ∧ first < 0xF8 then some 4
  else none

/-- The bytes of a tag's characters: those behind percent signs are of whole characters, of which
`owed` more bytes are expected. -/
def unescaped (owed : Nat) : List Char → Except Fault (List UInt8)
  | [] => if owed = 0 then .ok [] else .error .malformed
  | '%' :: high :: low :: rest =>
    match hexValue? high, hexValue? low with
    | some h, some l =>
      let byte := h * 16 + l
      if owed = 0 then
        match byteCount? byte with
        | some n => (unescaped (n - 1) rest).map (UInt8.ofNat byte :: ·)
        | none => .error .malformed
      else if 0x80 ≤ byte ∧ byte < 0xC0 then
        (unescaped (owed - 1) rest).map (UInt8.ofNat byte :: ·)
      else .error .malformed
    | _, _ => .error .malformed
  | c :: rest =>
    if owed = 0 ∧ c ≠ '%' then (unescaped 0 rest).map (Text.bytes c.toString ++ ·)
    else .error .malformed

/-- The handle that a tag begins with: one exclamation mark, or a word between two. -/
def tagHandle (c : Cursor) : Except Fault (List Char × Cursor) :=
  if c.peek? ≠ some '!' then .error .malformed
  else
    let (word, c) := c.next.takeWhile isWordChar
    if c.peek? = some '!' then .ok ('!' :: word ++ ['!'], c.next) else .ok ('!' :: word, c)

namespace Tag

/-- A tag in angle brackets, from behind the first of them. -/
def readBracketed (c : Cursor) : Except Fault (Tag × Cursor) := do
  let (chars, c) := c.takeWhile (isTagChar true)
  let rest ← unescaped 0 chars
  if chars.isEmpty ∨ c.peek? ≠ some '>' then .error .malformed
  else return (⟨"", rest⟩, c.next)

/-- A tag with a handle, or none but the exclamation mark. -/
def readShort (c : Cursor) : Except Fault (Tag × Cursor) := do
  let (handle, c) ← tagHandle c
  let (chars, c) := c.takeWhile (isTagChar false)
  let rest ← unescaped 0 chars
  if 1 < handle.length ∧ handle.getLast? = some '!' then
    if chars.isEmpty then .error .malformed else return (⟨String.ofList handle, rest⟩, c)
  else
    let rest := Text.bytes (String.ofList handle.tail) ++ rest
    return (if rest.isEmpty then ⟨"", Text.bytes "!"⟩ else ⟨"!", rest⟩, c)

/-- A tag, from its exclamation mark on; inside brackets a comma may follow it. -/
def read (flow : Bool) (c : Cursor) : Except Fault (Tag × Cursor) := do
  let (tag, c) ← if c.look? 1 = some '<' then readBracketed c.next.next else readShort c
  if c.endsAt 0 || (flow && c.peek? = some ',') then return (tag, c) else .error .malformed

end Tag

/-! ## directives -/

/-- What a document says about its text. -/
inductive Directive where
  | version (major minor : Nat)
  | tag (handle : String) (start : List UInt8)
  deriving DecidableEq

namespace Directive

/-- a number of at most nine digits -/
def number (c : Cursor) : Except Fault (Nat × Cursor) :=
  let (digits, c) := c.takeWhile Char.isDigit
  if digits.isEmpty ∨ 9 < digits.length then .error .malformed
  else .ok (digits.foldl (fun n d => n * 10 + (d.toNat - 48)) 0, c)

def readVersion (c : Cursor) : Except Fault (Directive × Cursor) := do
  let (major, c) ← number (c.skipWhile isBlank)
  if c.peek? ≠ some '.' then .error .malformed
  else
    let (minor, c) ← number c.next
    return (.version major minor, c)

def readTag (c : Cursor) : Except Fault (Directive × Cursor) := do
  let (handle, c) ← tagHandle (c.skipWhile isBlank)
  if 1 < handle.length ∧ handle.getLast? ≠ some '!' then .error .malformed
  else if !c.peek?.any isBlank then .error .malformed
  else
    let (chars, c) := (c.skipWhile isBlank).takeWhile (isTagChar true)
    let start ← unescaped 0 chars
    if chars.isEmpty || !c.endsAt 0 then .error .malformed
    else return (.tag (String.ofList handle) start, c)

/-- A directive, from behind its percent sign on. -/
def read (c : Cursor) : Except Fault (Directive × Cursor) := do
  let (name, c) := c.takeWhile isWordChar
  if !c.endsAt 0 then .error .malformed
  else if name = "YAML".toList then readVersion c
  else if name = "TAG".toList then readTag c
  else .error .malformed

end Directive

end Coalesce.Yaml
