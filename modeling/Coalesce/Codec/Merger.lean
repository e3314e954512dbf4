import Coalesce.Request
import Coalesce.Error

/-!
# Merged requests

* `Outcome`       what a piece of foreign code comes to: a value, an error, or a crash;
* `Merger`        writes several requests as fewer documents, and takes their responses apart;
* `Merger.mergeChecked`
                  the documents for some requests, checked: every request is a member of exactly
                  one of them, once.

A merger is asked in rounds.  It may remember what it was asked before, so nothing says that it
answers alike in two rounds, or for two documents of one round.
-/

namespace Coalesce

inductive Outcome (α : Type) where
  | done (value : α)
  | failed (cause : Error)
  | crashed
  deriving Inhabited

namespace Outcome

def bind (x : Outcome α) (f : α → Outcome β) : Outcome β :=
  match x with
  | .done a => f a
  | .failed e => .failed e
  | .crashed => .crashed

instance : Monad Outcome where
  pure := .done
  bind := bind

/-- a checked computation as an outcome -/
def ofExcept : Except Error α → Outcome α
  | .ok a => .done a
  | .error e => .failed e

end Outcome

/-- One request that stands for several, and the positions of those. -/
structure MergedDocument where
  request : Request
  members : List Nat
  /-- what the merger keeps for taking the response apart -/
  metadata : Json := .null
  deriving Inhabited

/-- Foreign code that merges requests and splits responses. -/
structure Merger where
  merge (round : Nat) : List Request → Outcome (List MergedDocument)
  /-- for the document at some place among those of a round -/
  split (round place : Nat) : MergedDocument → Json → Outcome (List Json)

namespace Merger

/-- Walks over member positions: the first one that is out of range or seen before is an error;
the positions seen at the end otherwise. -/
def seen (total : Nat) (found : List Nat) : List Nat → Except Error (List Nat)
  | [] => .ok found
  | m :: rest =>
    if m < total ∧ m ∉ found then seen total (m :: found) rest
    else .error (.runtime (.mergeRepeats m))

/-- Whether documents share out so many requests. -/
def check (total : Nat) (documents : List MergedDocument) : Except Error Unit := do
  let found ← seen total [] (documents.flatMap (·.members))
  if found.length = total then .ok ()
  else .error (.runtime (.mergeMisses found.length total))

/-- The documents for some requests, checked. -/
def mergeChecked (m : Merger) (round : Nat) (requests : List Request) :
    Outcome (List MergedDocument) := do
  let documents ← m.merge round requests
  Outcome.ofExcept (check requests.length documents)
  return documents

end Merger

end Coalesce
