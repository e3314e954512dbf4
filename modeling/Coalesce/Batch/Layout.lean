import Coalesce.Error

/-!
# Layouts

* `Layout`            which input positions went into which group, in the order of the groups;
* `Layout.restore`    results given group by group, put back into the order of the input.

Restoring checks what it is given: as many groups, as many results in each, and every position
taken exactly once.
-/

namespace Coalesce

structure Layout where
  groups : List (List Nat)
  deriving DecidableEq, Inhabited

namespace Layout

/-- the number of positions -/
def size (l : Layout) : Nat := l.groups.flatten.length

/-- Puts a result into its free slot. -/
def put {α : Type} (slots : List (Option α)) (index : Nat) (result : α) :
    Except Error (List (Option α)) :=
  match slots[index]? with
  | some none => .ok (slots.set index (some result))
  | _ => .error (.runtime (.layoutRepeats index))

/-- Puts the results of one group into their slots. -/
def putAll {α : Type} (slots : List (Option α)) : List (Nat × α) → Except Error (List (Option α))
  | [] => .ok slots
  | (index, result) :: rest => do
    let slots ← put slots index result
    putAll slots rest

/-- Puts the results of group after group into their slots. -/
def putGroups {α : Type} (slots : List (Option α)) :
    List (List Nat × List α) → Except Error (List (Option α))
  | [] => .ok slots
  | (group, results) :: rest =>
    if group.length ≠ results.length then
      .error (.protocol "batch" group.length results.length none)
    else do
      let slots ← putAll slots (group.zip results)
      putGroups slots rest

/-- all slots, when none is free -/
def collect {α : Type} : List (Option α) → Option (List α)
  | [] => some []
  | none :: _ => none
  | some a :: rest => (collect rest).map (a :: ·)

def restore {α : Type} (l : Layout) (results : List (List α)) : Except Error (List α) :=
  if results.length ≠ l.groups.length then
    .error (.protocol "batch" l.groups.length results.length none)
  else do
    let slots ← putGroups (List.replicate l.size none) (l.groups.zip results)
    match collect slots with
    | some values => .ok values
    | none => .error (.runtime .layoutMisses)

end Layout

end Coalesce
