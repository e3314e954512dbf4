import Coalesce.Json.Format

/-!
# Requests

* `OperationKind`     what a request does; a subscription never waits for others;
* `Request`           a GraphQL request;
* `Request.toJson`    how it is sent: what is absent is left out;
* `Request.read`      a request from the document of a text;
* `Request.ofJson?`   a request from a value.
-/

namespace Coalesce

open Decode

inductive OperationKind where
  | query
  | mutation
  | subscription
  deriving DecidableEq, Inhabited

namespace OperationKind

def name : OperationKind → String
  | .query => "query"
  | .mutation => "mutation"
  | .subscription => "subscription"

def names : List (String × OperationKind) :=
  [("query", .query), ("mutation", .mutation), ("subscription", .subscription)]

def ofName? (name : String) : Option OperationKind := names.lookup name

def read {D : Type} (f : Format D) (d : D) : Except Fault OperationKind :=
  f.variant ofName? (names.map (·.1)) d

end OperationKind

/-- A GraphQL request; the bindings of its variables are kept in the order of their names. -/
structure Request where
  query : String
  operationName : Option String := none
  bindings : Option (List (String × Json)) := none
  extensions : Option Json := none
  deriving Inhabited

namespace Request

/-- sets one variable -/
def withBinding (r : Request) (name : String) (value : Json) : Request :=
  { r with bindings := some (Members.insert name value (r.bindings.getD [])) }

/-- the present members, in the order of declaration -/
def members (r : Request) : List (String × Json) :=
  [("query", .string r.query)]
    ++ (r.operationName.map fun n => ("operationName", Json.string n)).toList
    ++ (r.bindings.map fun vs => ("variables", Json.object vs)).toList
    ++ (r.extensions.map fun v => ("extensions", v)).toList

def toJson (r : Request) : Json := .ofMembers r.members

/-- the text with members in the order of declaration -/
def text (r : Request) : String := (Json.object r.members).compact

/-! ## reading

A text may be nested only so deep; a value that is there already may be nested to any depth.
-/

/-- the levels left inside a request that is the whole text -/
def innerLevels : Nat := Json.maxLevels - 1

def readBindings (levels : Nat) (d : Json.Document) : Except Fault (List (String × Json)) :=
  match d with
  | .object _ _ =>
    match d.value? levels with
    | some (.object ms) => .ok ms
    | _ => .error .malformed
  | d => .error (d.mismatch "a map")

def readValue (levels : Nat) (d : Json.Document) : Except Fault Json :=
  match d.value? levels with
  | some v => .ok v
  | none => .error .malformed

/-- the fields read so far -/
structure Draft where
  query : Option String := none
  operationName : Option (Option String) := none
  bindings : Option (Option (List (String × Json))) := none
  extensions : Option (Option Json) := none

def step (levels : Nat) (r : Draft) (name : String) (d : Json.Document) : Except Fault Draft :=
  let f := Json.format
  if name = "query" then
    return { r with query := ← once "query" r.query (f.string d) }
  else if name = "operationName" then do
    let n ← once "operationName" r.operationName (f.optional f.string d)
    return { r with operationName := n }
  else if name = "variables" then do
    let vs ← once "variables" r.bindings (f.optional (readBindings levels) d)
    return { r with bindings := vs }
  else if name = "extensions" then do
    let v ← once "extensions" r.extensions (f.optional (readValue levels) d)
    return { r with extensions := v }
  else .ok r

/-- A request from a document, with so many levels left inside it. -/
def readWithin (levels : Nat) (d : Json.Document) : Except Fault Request := do
  let f := Json.format
  match ← f.record "GraphQLRequest" d with
  | .named members =>
    let r ← members.fold (step levels) {}
    let query ← required "query" r.query
    return ⟨query, r.operationName.getD none, r.bindings.getD none, r.extensions.getD none⟩
  | .positional items =>
    let (query, items) ← items.nextOf 0 "struct GraphQLRequest with 4 elements" f.string
    let (operationName, items) ← items.nextOr none (f.optional f.string)
    let (bindings, items) ← items.nextOr none (f.optional (readBindings levels))
    let (extensions, items) ← items.nextOr none (f.optional (readValue levels))
    items.finish ⟨query, operationName, bindings, extensions⟩

/-- A request from the document of a text. -/
def read (d : Json.Document) : Except Fault Request := readWithin innerLevels d

/-- A request from a value. -/
def ofJson? (v : Json) : Except Fault Request := readWithin v.levels (Json.document v)

end Request

end Coalesce
