import Coalesce.Json.Document
import Coalesce.Decode.Format

/-!
# Records in JSON documents

* `Json.format`       how JSON documents hold data: a record is an object or an array of its
                      fields, a variant is its name or an object with the name and `null`;
* `Json.Document.read`      a record from a text, nothing behind it;
* `Json.read`               a record from a value.
-/

namespace Coalesce.Json

open Decode

namespace Document

/-- what a document holds, unless it is broken -/
def found? : Document → Option Found
  | .null => some .null
  | .bool b => some (.bool b)
  | .number n => n.map .number
  | .string s => s.map .string
  | .array _ _ => some .sequence
  | .object _ _ => some .map
  | .broken => none

/-- Something else was asked for. -/
def mismatch (d : Document) (expected : String) : Fault :=
  match d.found? with
  | some f => .wrongType f expected
  | none => .malformed

/-- members up to the first whose name cannot be read -/
def namedMembers (closed : Bool) : List (Key × Document) → Parts (String × Document)
  | [] => ⟨[], closed⟩
  | (.name n, d) :: rest =>
    let more := namedMembers closed rest
    ⟨(n, d) :: more.parts, more.complete⟩
  | (_, _) :: _ => ⟨[], false⟩

def record (name : String) : Document → Except Fault (Record Document)
  | .object members closed => .ok (.named (namedMembers closed members))
  | .array items closed => .ok (.positional ⟨items, closed⟩)
  | d => .error (d.mismatch ("struct " ++ name))

def sequence : Document → Except Fault (Parts Document)
  | .array items closed => .ok ⟨items, closed⟩
  | d => .error (d.mismatch "a sequence")

def integer (low high : Int) (kind : String) : Document → Except Fault Int
  | .number (some (.int i)) =>
    if low ≤ i ∧ i ≤ high then .ok i else .error (.outOfRange i kind)
  | d => .error (d.mismatch kind)

def bool? : Document → Except Fault Bool
  | .bool b => .ok b
  | d => .error (d.mismatch "a boolean")

def string? : Document → Except Fault String
  | .string (some s) => .ok s
  | d => .error (d.mismatch "a string")

def option : Document → Option Document
  | .null => none
  | d => some d

/-- the variant of a name -/
def known {α : Type} (ofName : String → Option α) (names : List String) (name : String) :
    Except Fault α :=
  match ofName name with
  | some a => .ok a
  | none => .error (.unknownVariant name names)

/-- what stands where the name of a variant should be -/
def Key.variant {α : Type} (ofName : String → Option α) (names : List String) :
    Key → Except Fault α
  | .name n => known ofName names n
  | .broken => .error .malformed
  | .null => .error (.wrongType .null "variant identifier")
  | .bool b => .error (.wrongType (.bool b) "variant identifier")
  | .number n => .error (.wrongType (.number n) "variant identifier")
  | .array => .error (.wrongType .sequence "variant identifier")
  | .object => .error (.wrongType .map "variant identifier")

def variant {α : Type} (ofName : String → Option α) (names : List String) :
    Document → Except Fault α
  | .string (some s) => known ofName names s
  | .object ((k, d) :: rest) closed => do
    let a ← Key.variant ofName names k
    match d with
    | .null => if rest.isEmpty && closed then .ok a else .error .malformed
    | d => .error (d.mismatch "unit")
  | _ => .error .malformed

end Document

def format : Format Document where
  record := Document.record
  sequence := Document.sequence
  integer := Document.integer
  bool := Document.bool?
  string := Document.string?
  option := Document.option
  variant := Document.variant

/-- Reads a text that holds one document and nothing else. -/
def readText (read : Document → Except Fault α) (text : String) : Except Fault α := do
  let (d, more) := Document.ofText text
  let a ← read d
  if more then .error .malformed else .ok a

end Coalesce.Json
