import Coalesce.Batch.Partition
import Coalesce.Caller

/-!
# Who may share a call

`Strategy.partition` cuts the requests of a window into the groups that may share a call, by the
`Grouping` of each strategy: one caller, equal comparable headers, or anybody.  Except for the last
one, a change of the operation kind in the order of arrival ends all groups before it.
-/

namespace Coalesce

/-- one caller -/
def Grouping.byToken (maxSize : Nat) : Grouping Item Nat OperationKind where
  key i := i.caller.state.token
  series i := i.kind
  maxSize := Grouping.sizeBound maxSize

/-- equal comparable headers, found by their digests -/
def Grouping.byHeaders (maxSize : Nat) : Grouping Item HeaderDigest OperationKind where
  key i := i.caller.state.digest
  series i := i.kind
  equality := some fun a b => a.caller.state.sameHeaders b.caller.state
  maxSize := Grouping.sizeBound maxSize

/-- anybody -/
def Grouping.anybody (maxSize : Nat) : Grouping Item Unit Unit where
  key _ := ()
  series _ := ()
  maxSize := Grouping.sizeBound maxSize

/-- The groups that may share a call; a size of zero is no bound. -/
def Strategy.partition (s : Strategy) (maxSize : Nat) (items : List Item) : List (Batch Item) :=
  match s with
  | .byCaller => (Grouping.byToken maxSize).partition items
  | .byHeaders => (Grouping.byHeaders maxSize).partition items
  | .indiscriminate => (Grouping.anybody maxSize).partition items

end Coalesce
