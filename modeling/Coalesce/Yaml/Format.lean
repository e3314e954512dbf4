import Coalesce.Yaml.Node
import Coalesce.Decode.Format

/-!
# Records in YAML documents

* `Place`         a node with the anchors of its document, or the place of a document that is not
                  there;
* `Yaml.format`   how YAML documents hold data: a record is a mapping, nothing written is an empty
                  record or sequence, and what a scalar is depends on what is asked for;
* `readText`      a record from a text with at most one document.

Only a scalar without quotes is a number, a truth value or null; every scalar is a string.
-/

namespace Coalesce.Yaml

open Decode

structure Place where
  node : Option Node
  anchors : List (Nat × Node)

namespace Place

/-- the node that an alias stands for -/
def resolved (p : Place) : Option Node :=
  match p.node with
  | some (.alias a) => p.anchors.lookup a
  | node => node

/-- the place of another node of the document -/
def other (p : Place) (n : Node) : Place := ⟨some n, p.anchors⟩

end Place

/-- whether a scalar says that there is nothing -/
def isNull (text : String) : Bool := ["null", "Null", "NULL", "~"].contains text

/-- tags of numbers, truth values and null -/
def coreTag (name : String) : List UInt8 := Text.bytes ("tag:yaml.org,2002:" ++ name)

/-- Whether a scalar may be read as something other than a string. -/
def isBare (name : String) (tag : Option (List UInt8)) (style : ScalarStyle) : Bool :=
  style = .plain || (style = .literal && tag = some (coreTag name))

/-! ## numbers -/

/-- digits to some base, at least one -/
def digits? (base : Nat) (s : List Char) : Option Nat :=
  if s.isEmpty then none
  else s.foldlM (fun n c =>
    (hexValue? c).bind fun d => if d < base then some (n * base + d) else none) 0

/-- Digits behind a sign of the base; decimal numbers do not begin with a needless zero. -/
def magnitude? : List Char → Option Nat
  | '0' :: 'x' :: rest => digits? 16 rest
  | '0' :: 'o' :: rest => digits? 8 rest
  | '0' :: 'b' :: rest => digits? 2 rest
  | '0' :: _ :: _ => none
  | s => digits? 10 s

/-- An integer with or without a sign. -/
def integer? : List Char → Option Int
  | '+' :: rest => (magnitude? rest).map fun (n : Nat) => (n : Int)
  | '-' :: rest => (magnitude? rest).map fun (n : Nat) => -(n : Int)
  | s => (magnitude? s).map fun (n : Nat) => (n : Int)

/-! ## the format -/

namespace Place

/-- the text of a scalar -/
def string (p : Place) : Except Fault String :=
  match p.resolved with
  | some (.scalar _ _ _ text) => .ok text
  | _ => .error .malformed

/-- nothing written -/
def isEmpty (p : Place) : Bool :=
  match p.resolved with
  | some (.scalar _ _ .plain text) => text.isEmpty
  | some _ => false
  | none => true

def record (p : Place) : Except Fault (Record Place) :=
  match p.resolved with
  | some (.mapping _ members) => do
    let members ← members.mapM fun (k, v) => do
      let name ← (p.other k).string
      return (name, p.other v)
    return .named ⟨members, true⟩
  | _ => if p.isEmpty then .ok (.named ⟨[], true⟩) else .error .malformed

def sequence (p : Place) : Except Fault (Parts Place) :=
  match p.resolved with
  | some (.sequence _ items) => .ok ⟨items.map p.other, true⟩
  | _ => if p.isEmpty then .ok ⟨[], true⟩ else .error .malformed

/-- A number that is never negative takes no minus sign. -/
def integer (p : Place) (low high : Int) : Except Fault Int :=
  match p.resolved with
  | some (.scalar _ tag style text) =>
    match integer? text.toList with
    | some i =>
      let signed := text.toList.head? = some '-' ∧ 0 ≤ low
      if isBare "int" tag style ∧ low ≤ i ∧ i ≤ high ∧ ¬signed then .ok i
      else .error .malformed
    | none => .error .malformed
  | _ => .error .malformed

def bool (p : Place) : Except Fault Bool :=
  match p.resolved with
  | some (.scalar _ tag style text) =>
    if !isBare "bool" tag style then .error .malformed
    else if ["true", "True", "TRUE"].contains text then .ok true
    else if ["false", "False", "FALSE"].contains text then .ok false
    else .error .malformed
  | _ => .error .malformed

/-- None for a null without quotes: written out, or left out where there is no tag. -/
def option (p : Place) : Option Place :=
  match p.resolved with
  | some (.scalar _ tag .plain text) =>
    match tag with
    | none => if text.isEmpty || isNull text then none else some p
    | some tag => if tag = coreTag "null" && isNull text then none else some p
  | some _ => some p
  | none => none

/-- A variant is a scalar, or a tag of its own with nothing behind it. -/
def variant {α : Type} (ofName : String → Option α) (p : Place) : Except Fault α :=
  let known (name : String) : Except Fault α :=
    match ofName name with
    | some a => .ok a
    | none => .error .malformed
  match p.resolved with
  | some (.scalar _ tag style text) =>
    match tag with
    | some (33 :: name) =>
      match Text.ofBytes? name with
      | some name =>
        if style = .plain && (text.isEmpty || isNull text) then known name
        else .error .malformed
      | none => known text
    | _ => known text
  | _ => .error .malformed

end Place

def format : Format Place where
  record _ := Place.record
  sequence := Place.sequence
  integer low high _ p := p.integer low high
  bool := Place.bool
  string := Place.string
  option := Place.option
  variant ofName _ := Place.variant ofName

def readText (read : Place → Except Fault α) (text : String) : Except Fault α := do
  match ← Node.ofText text with
  | some n => read ⟨some n, n.anchored⟩
  | none => read ⟨none, []⟩

end Coalesce.Yaml
