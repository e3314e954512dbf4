import Coalesce.Yaml.Token

/-!
# The nodes of a YAML text

* `Node`            a scalar, a sequence, a mapping, or an alias of a node with an anchor;
* `Node.ofTokens`   the root of the only document of a text, or none when there is no document;
* `Node.anchored`   the nodes with anchors, by number.

Anchors are numbered as they come, and a name that comes again gets the number of names known so
far; an alias stands for the last node of its number.
-/

namespace Coalesce.Yaml

open Decode

/-- A node of a document. -/
inductive Node where
  | scalar (anchor : Option Nat) (tag : Option (List UInt8)) (style : ScalarStyle) (text : String)
  | sequence (anchor : Option Nat) (items : List Node)
  | mapping (anchor : Option Nat) (members : List (Node × Node))
  | alias (anchor : Nat)

namespace Node

/-! ## nodes from tokens -/

/-- The tokens left, and the anchors found so far. -/
structure Source where
  tokens : List Token
  /-- each name once -/
  anchors : List (String × Nat) := []
  /-- what tag handles stand for -/
  handles : List (String × List UInt8) := []

/-- Reading from a source. -/
abbrev Reader := StateT Source (Except Fault)

namespace Reader

def fail : Reader α := fun _ => .error .malformed

/-- the next token, not taken -/
def peek : Reader (Option Token) := fun s => .ok (s.tokens.head?, s)

/-- takes the next token -/
def skip : Reader Unit := fun s => .ok ((), { s with tokens := s.tokens.tail })

/-- Takes the next token if it is this one. -/
def accept (t : Token) : Reader Bool := fun s =>
  match s.tokens with
  | u :: rest => if u = t then .ok (true, { s with tokens := rest }) else .ok (false, s)
  | [] => .ok (false, s)

/-- Takes this token. -/
def expect (t : Token) : Reader Unit := do
  if ← accept t then return () else fail

/-- whether the next token is one of these, or there is none -/
def before (ts : List Token) : Reader Bool := fun s => .ok (s.tokens.head?.all (ts.contains ·), s)

/-- the number of an anchor known so far -/
def known (name : String) : Reader Nat := fun s =>
  match s.anchors.lookup name with
  | some n => .ok (n, s)
  | none => .error .malformed

/-- Numbers an anchor. -/
def number (name : String) : Reader Nat := fun s =>
  let n := s.anchors.length
  .ok (n, { s with anchors := (name, n) :: s.anchors.filter (·.1 ≠ name) })

/-- The whole tag of a tag as written. -/
def whole (t : Tag) : Reader (List UInt8) := fun s =>
  if t.handle.isEmpty then .ok (t.rest, s)
  else
    match s.handles.lookup t.handle with
    | some start => .ok (start ++ t.rest, s)
    | none => .error .malformed

/-- The anchor and the tag in front of a node, in either order. -/
def properties : Reader (Option Nat × Option (List UInt8)) := do
  match ← peek with
  | some (.anchor name) =>
    skip
    match ← peek with
    | some (.tag t) =>
      skip
      let tag ← whole t
      return (some (← number name), some tag)
    | _ => return (some (← number name), none)
  | some (.tag t) =>
    skip
    match ← peek with
    | some (.anchor name) =>
      skip
      let tag ← whole t
      return (some (← number name), some tag)
    | _ => return (none, some (← whole t))
  | _ => return (none, none)

end Reader

open Reader

/-- the node where nothing is written -/
def empty : Node := .scalar none none .plain ""

/-- A scalar without quotes does not need the tag of one exclamation mark. -/
def scalarTag (tag : Option (List UInt8)) : Option (List UInt8) :=
  if tag = some (Text.bytes "!") then none else tag

mutual

/-- A node: inside brackets only brackets follow, and in some places a sequence needs no indent. -/
def read (block indentless : Bool) : Nat → Reader Node
  | 0 => fail
  | fuel + 1 => do
    match ← peek with
    | some (.alias name) =>
      skip
      return .alias (← known name)
    | _ =>
      let (anchor, tag) ← properties
      match ← peek with
      | some (.scalar style text) =>
        skip
        return .scalar anchor (scalarTag tag) style text
      | some .flowSequenceStart =>
        skip
        return .sequence anchor (← flowItems true fuel)
      | some .flowMappingStart =>
        skip
        return .mapping anchor (← flowMembers true fuel)
      | next =>
        if indentless && next = some .blockEntry then
          return .sequence anchor (← indentlessItems fuel)
        else if block && next = some .blockSequenceStart then do
          skip
          return .sequence anchor (← blockItems fuel)
        else if block && next = some .blockMappingStart then do
          skip
          return .mapping anchor (← blockMembers fuel)
        else if anchor.isSome || tag.isSome then return .scalar anchor tag .plain ""
        else fail

/-- A node, or the empty one before these tokens. -/
def readBefore (ends : List Token) (block indentless : Bool) : Nat → Reader Node
  | 0 => fail
  | fuel + 1 => do
    if ← before ends then return empty else read block indentless fuel

/-- The items of an indented sequence. -/
def blockItems : Nat → Reader (List Node)
  | 0 => fail
  | fuel + 1 => do
    if ← accept .blockEntry then
      let item ← readBefore [.blockEntry, .blockEnd] true false fuel
      return item :: (← blockItems fuel)
    else
      expect .blockEnd
      return []

/-- The items of a sequence that is indented like its key. -/
def indentlessItems : Nat → Reader (List Node)
  | 0 => fail
  | fuel + 1 => do
    if ← accept .blockEntry then
      let item ← readBefore [.blockEntry, .key, .value, .blockEnd] true false fuel
      return item :: (← indentlessItems fuel)
    else return []

/-- The members of an indented mapping. -/
def blockMembers : Nat → Reader (List (Node × Node))
  | 0 => fail
  | fuel + 1 => do
    if ← accept .key then
      let key ← readBefore [.key, .value, .blockEnd] true true fuel
      let value ←
        if ← accept .value then readBefore [.key, .value, .blockEnd] true true fuel
        else pure empty
      return (key, value) :: (← blockMembers fuel)
    else
      expect .blockEnd
      return []

/-- The items of a sequence in brackets; a key in it makes a mapping of one member. -/
def flowItems (first : Bool) : Nat → Reader (List Node)
  | 0 => fail
  | fuel + 1 => do
    if ← accept .flowSequenceEnd then return []
    else
      if !first then expect .flowEntry
      if ← accept .key then
        let noKey ← before [.value, .flowEntry, .flowSequenceEnd]
        let key ←
          if noKey then do
            skip
            pure empty
          else read false false fuel
        let value ←
          if ← accept .value then readBefore [.flowEntry, .flowSequenceEnd] false false fuel
          else pure empty
        return .mapping none [(key, value)] :: (← flowItems false fuel)
      else if ← accept .flowSequenceEnd then return []
      else
        let item ← read false false fuel
        return item :: (← flowItems false fuel)

/-- The members of a mapping in brackets. -/
def flowMembers (first : Bool) : Nat → Reader (List (Node × Node))
  | 0 => fail
  | fuel + 1 => do
    if ← accept .flowMappingEnd then return []
    else
      if !first then expect .flowEntry
      if ← accept .key then
        let key ← readBefore [.value, .flowEntry, .flowMappingEnd] false false fuel
        let value ←
          if ← accept .value then readBefore [.flowEntry, .flowMappingEnd] false false fuel
          else pure empty
        return (key, value) :: (← flowMembers false fuel)
      else if ← accept .flowMappingEnd then return []
      else
        let key ← read false false fuel
        return (key, empty) :: (← flowMembers false fuel)

end

/-! ## documents -/

/-- The handles that need no directive. -/
def usualHandles : List (String × List UInt8) :=
  [("!", Text.bytes "!"), ("!!", Text.bytes "tag:yaml.org,2002:")]

/-- Directives in front of a document: at most one version, and every handle once. -/
def directives (version : Bool) : List Token → List (String × List UInt8) →
    Except Fault (List Token × List (String × List UInt8))
  | .directive (.version major minor) :: rest, handles =>
    if version ∨ major ≠ 1 ∨ (minor ≠ 1 ∧ minor ≠ 2) then .error .malformed
    else directives true rest handles
  | .directive (.tag handle start) :: rest, handles =>
    if (handles.lookup handle).isSome then .error .malformed
    else directives version rest ((handle, start) :: handles)
  | rest, handles => .ok (rest, handles ++ usualHandles)

/-- calls of readers inside each other, for so many tokens -/
def depth (tokens : List Token) : Nat := 3 * tokens.length + 3

def ofTokens (tokens : List Token) : Except Fault (Option Node) := do
  let (node, left) ← match tokens with
    | [] => return none
    | .directive _ :: _ | .documentStart :: _ =>
      let (rest, handles) ← directives false tokens []
      let source ← match rest with
        | .documentStart :: rest => .ok { tokens := rest, handles }
        | _ => .error .malformed
      let ends (t : Token) : Bool := match t with
        | .directive _ | .documentStart | .documentEnd => true
        | _ => false
      if source.tokens.head?.all ends then .ok (empty, source)
      else read true false (depth tokens) source
    | _ => read true false (depth tokens) { tokens, handles := usualHandles }
  if left.tokens.all (· = .documentEnd) then return some node else .error .malformed

/-- The only document of a text. -/
def ofText (text : String) : Except Fault (Option Node) := do ofTokens (← Token.scan text)

/-! ## anchors -/

def anchor? : Node → Option Nat
  | .scalar a _ _ _ | .sequence a _ | .mapping a _ => a
  | .alias _ => none

mutual

/-- a node and all nodes inside it, in the order of the text -/
def all : Node → List Node
  | .sequence a items => .sequence a items :: allOf items
  | .mapping a members => .mapping a members :: allMembers members
  | n => [n]

def allOf : List Node → List Node
  | [] => []
  | n :: rest => all n ++ allOf rest

def allMembers : List (Node × Node) → List Node
  | [] => []
  | (k, v) :: rest => all k ++ all v ++ allMembers rest

end

/-- The nodes with anchors, the last ones first. -/
def anchored (n : Node) : List (Nat × Node) :=
  ((all n).filterMap fun n => n.anchor?.map fun a => (a, n)).reverse

end Node

end Coalesce.Yaml
