import Coalesce.Json.Token

/-!
# JSON texts as written

* `Document`             a text as far as it can be read: members in the order of the text, repeated
                         names and all, and `broken` where it stops being JSON;
* `Document.ofText`      the document of a text, and whether something follows it;
* `Document.value?`      the JSON value of a document without a broken part;
* `Json.ofText?`         the value of a text;
* `Json.document`        a value as a document;
* `Json.levels`          how deep arrays and objects are nested in a value.

A record is read from the document and not from the value, since the first fault in the order of
the text is the one to report: a wrong number before a missing bracket, or after it.
-/

namespace Coalesce.Json

/-- What stands where a member's name should be. -/
inductive Key where
  | name (text : String)
  /-- a string with half a character, or no JSON at all -/
  | broken
  | null
  | bool (value : Bool)
  | number (value : Number)
  | array
  | object
  deriving DecidableEq

/-- A text as far as it can be read; an array or object is closed when its bracket was found. -/
inductive Document where
  | null
  | bool (value : Bool)
  /-- none when it is too large for a double -/
  | number (value : Option Number)
  /-- none when an escape names half a character alone -/
  | string (value : Option String)
  | array (items : List Document) (closed : Bool)
  | object (members : List (Key × Document)) (closed : Bool)
  | broken
  deriving Inhabited

namespace Document

/-- An array or object not yet closed; items and members are kept last first. -/
inductive Frame where
  | array (items : List Document)
  | object (members : List (Key × Document))
  | member (members : List (Key × Document)) (key : Key)

/-- What may come next. -/
inductive Expect where
  | value
  | valueOrClose
  | more
  | keyOrClose
  | key
  | colon
  deriving DecidableEq

/-- the innermost open frame, as far as it was read -/
def Frame.cut : Frame → Document → Document
  | .array items, last => .array (last :: items).reverse false
  | .object members, _ => .object members.reverse false
  | .member members key, last => .object ((key, last) :: members).reverse false

/-- The document when the text breaks off at this point. -/
def cut (inner : Document) : List Frame → Document
  | [] => inner
  | f :: outer => cut (f.cut inner) outer

/-- the same, where the innermost array or object has just seen a whole item -/
def cutAfter : List Frame → Document
  | [] => .broken
  | .array items :: outer => cut (.array items.reverse false) outer
  | .object members :: outer => cut (.object members.reverse false) outer
  | .member members key :: outer => cut (.object ((key, .broken) :: members).reverse false) outer

/-- a token where a name should be -/
def keyOf : Token → Key
  | .string (some s) => .name s
  | .string none => .broken
  | .null => .null
  | .bool b => .bool b
  | .number n => match n.value? with
    | some v => .number v
    | none => .broken
  | .openArray => .array
  | .openObject => .object
  | .closeArray | .closeObject | .comma | .colon | .junk => .broken

/-- Reads tokens with the open frames at hand; the second part says whether tokens are left over. -/
def read (frames : List Frame) (expect : Expect) : List Token → Document × Bool
  | [] =>
    match expect with
    | .value => (cut .broken frames, false)
    | .valueOrClose | .more | .keyOrClose | .key | .colon => (cutAfter frames, false)
  | t :: rest =>
    let whole (d : Document) : Document × Bool :=
      match frames with
      | [] => (d, !rest.isEmpty)
      | .array items :: outer => read (.array (d :: items) :: outer) .more rest
      | .member members key :: outer => read (.object ((key, d) :: members) :: outer) .more rest
      | .object members :: outer => (cutAfter (.object members :: outer), false)
    let closing (d : Document) (outer : List Frame) : Document × Bool :=
      match outer with
      | [] => (d, !rest.isEmpty)
      | .array items :: outer => read (.array (d :: items) :: outer) .more rest
      | .member members key :: outer => read (.object ((key, d) :: members) :: outer) .more rest
      | .object members :: outer => (cutAfter (.object members :: outer), false)
    let value : Document × Bool :=
      match t with
      | .null => whole .null
      | .bool b => whole (.bool b)
      | .number n => whole (.number n.value?)
      | .string s => whole (.string s)
      | .openArray => read (.array [] :: frames) .valueOrClose rest
      | .openObject => read (.object [] :: frames) .keyOrClose rest
      | .closeArray | .closeObject | .comma | .colon | .junk => (cut .broken frames, false)
    let key : Document × Bool :=
      match frames, t with
      | .object members :: outer, .string s =>
        read (.member members (keyOf (.string s)) :: outer) .colon rest
      | .object members :: outer, _ =>
        (cut (.object ((keyOf t, .broken) :: members).reverse false) outer, false)
      | _, _ => (cutAfter frames, false)
    match expect, t with
    | .value, _ => value
    | .valueOrClose, .closeArray =>
      match frames with
      | .array items :: outer => closing (.array items.reverse true) outer
      | _ => (cutAfter frames, false)
    | .valueOrClose, _ => value
    | .keyOrClose, .closeObject =>
      match frames with
      | .object members :: outer => closing (.object members.reverse true) outer
      | _ => (cutAfter frames, false)
    | .keyOrClose, _ => key
    | .key, _ => key
    | .colon, .colon => read frames .value rest
    | .colon, _ => (cutAfter frames, false)
    | .more, .comma =>
      match frames with
      | .array _ :: _ => read frames .value rest
      | .object _ :: _ => read frames .key rest
      | _ => (cutAfter frames, false)
    | .more, .closeArray =>
      match frames with
      | .array items :: outer => closing (.array items.reverse true) outer
      | _ => (cutAfter frames, false)
    | .more, .closeObject =>
      match frames with
      | .object members :: outer => closing (.object members.reverse true) outer
      | _ => (cutAfter frames, false)
    | .more, _ => (cutAfter frames, false)

/-- The document of a text, and whether more than blanks follows it. -/
def ofText (text : String) : Document × Bool := read [] .value (Token.scan text)

/-! ## values -/

mutual

/-- The value of a document, with so many levels of arrays and objects allowed. -/
def value? (levels : Nat) : Document → Option Json
  | .null => some .null
  | .bool b => some (.bool b)
  | .number n => n.map .number
  | .string s => s.map .string
  | .array items closed =>
    match levels with
    | 0 => none
    | levels + 1 => if closed then (values? levels items).map .array else none
  | .object members closed =>
    match levels with
    | 0 => none
    | levels + 1 => if closed then (memberValues? levels members).map Json.ofMembers else none
  | .broken => none

def values? (levels : Nat) : List Document → Option (List Json)
  | [] => some []
  | d :: rest =>
    match value? levels d, values? levels rest with
    | some v, some vs => some (v :: vs)
    | _, _ => none

def memberValues? (levels : Nat) : List (Key × Document) → Option (List (String × Json))
  | [] => some []
  | (k, d) :: rest =>
    match k, value? levels d, memberValues? levels rest with
    | .name n, some v, some vs => some ((n, v) :: vs)
    | _, _, _ => none

end

end Document

/-- The levels of nesting that a text may have. -/
def maxLevels : Nat := 127

def ofText? (text : String) : Option Json :=
  match Document.ofText text with
  | (d, false) => d.value? maxLevels
  | (_, true) => none

mutual

/-- A value as a document that has nothing broken in it. -/
def document : Json → Document
  | .null => .null
  | .bool b => .bool b
  | .number n => .number (some n)
  | .string s => .string (some s)
  | .array items => .array (documents items) true
  | .object members => .object (memberDocuments members) true

def documents : List Json → List Document
  | [] => []
  | v :: rest => document v :: documents rest

def memberDocuments : List (String × Json) → List (Key × Document)
  | [] => []
  | (n, v) :: rest => (.name n, document v) :: memberDocuments rest

end

mutual

/-- The levels of nesting of a value. -/
def levels : Json → Nat
  | .array items => itemLevels items + 1
  | .object members => memberLevels members + 1
  | .null | .bool _ | .number _ | .string _ => 0

def itemLevels : List Json → Nat
  | [] => 0
  | v :: rest => max (levels v) (itemLevels rest)

def memberLevels : List (String × Json) → Nat
  | [] => 0
  | (_, v) :: rest => max (levels v) (memberLevels rest)

end

end Coalesce.Json
