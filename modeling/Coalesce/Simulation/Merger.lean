import Coalesce.Codec.Basic

/-!
# A merger that follows a plan

* `MergePlan`            which requests go into which document, and how responses are split;
* `MergePlan.merger`     the merger that does so.

Every document asks for the queries of its members under the names `_0`, `_1`, … of their
positions, and a member's result is what the response holds under its name.  A plan may also be
wrong on purpose: leave requests out, repeat them, fail or crash.
-/

namespace Coalesce

/-- Which requests go into which document. -/
inductive GroupPlan where
  | all
  | each
  | parity
  | reversed
  | lossy
  | twice
  | nothing
  | fails
  | crashes
  | fixed (groups : List (List Nat))
  deriving DecidableEq

/-- How a response is split. -/
inductive SplitPlan where
  | exact
  | short
  | long
  | reversed
  | fails
  | crashes
  deriving DecidableEq

/-- What a planned merger does. -/
structure MergePlan where
  groups : GroupPlan := .all
  split : SplitPlan := .exact
  /-- the error of a plan that fails -/
  error : Option Error := none

namespace GroupPlan

/-- the groups for so many requests, of a plan that makes any -/
def groups (p : GroupPlan) (n : Nat) : List (List Nat) :=
  let all := List.range n
  match p with
  | .all => [all]
  | .each => all.map fun i => [i]
  | .parity => [all.filter (· % 2 = 0), all.filter (· % 2 = 1)]
  | .reversed => [all.reverse]
  | .lossy => [List.range (n - 1)]
  | .twice => [all, all]
  | .nothing | .fails | .crashes => []
  | .fixed groups => groups

end GroupPlan

namespace MergePlan

/-- the name of a member's field -/
def fieldName (member : Nat) : String := "_" ++ toString member

/-- a query without the brackets and blanks around it -/
def inner (query : String) : String :=
  let outer (c : Char) : Bool := c = '{' || c = '}' || c = ' '
  String.ofList (((query.toList.dropWhile outer).reverse.dropWhile outer).reverse)

/-- the document for a group -/
def document (requests : List Request) (group : List Nat) : MergedDocument :=
  let field (member : Nat) : String :=
    fieldName member ++ ": " ++ (match requests[member]? with
      | some r => inner r.query
      | none => "?")
  { request := { query := "\x7b " ++ String.intercalate " " (group.map field) ++ " \x7d" }
    members := group }

/-- a member's part of a response -/
def part (response : Json) (member : Nat) : Json :=
  let found := ((response.member? "data").bind (Json.member? (fieldName member))).getD .null
  .object [("data", found)]

def failure (p : MergePlan) (expected : Nat) (text : String) : Error :=
  p.error.getD (.malformed "merger" expected (.stated text))

/-- The merger that follows a plan. -/
def merger (p : MergePlan) : Merger where
  merge _ requests :=
    match p.groups with
    | .fails => .failed (p.failure requests.length "cannot merge")
    | .crashes => .crashed
    | g => .done ((g.groups requests.length).map (document requests))
  split _ _ doc response :=
    let parts := doc.members.map (part response)
    match p.split with
    | .exact => .done parts
    | .short => .done parts.dropLast
    | .long => .done (parts ++ [.null])
    | .reversed => .done parts.reverse
    | .fails => .failed (p.failure doc.members.length "cannot split")
    | .crashes => .crashed

end MergePlan

end Coalesce
