import Coalesce.Strategy

/-!
# Registries of contexts

* `Registry`           contexts by their numbers, and the next free token;
* `Registry.Event`     a context is entered, changed, or asked for its batching state;
* `Registry.step`      what an event changes;
* `Registry.word?`     the token of a context, in the 64 bits that hold it;
* `Registry.Waiting`   a request of a window, with the number of its context;
* `Registry.cut`       the walk over a window, which asks each context for its token on the way.

A state is settled when its context is first asked for it, so tokens are issued while a window is
cut.
-/

namespace Coalesce

structure Registry where
  contexts : List Context := []
  nextToken : Nat := 1

namespace Registry

/-- What may happen to contexts. -/
inductive Event where
  /-- a new one -/
  | enter
  | withHeaders (context : Nat) (headers : Headers)
  | withHeader (context : Nat) (name value : String)
  | withDeadline (context : Nat) (deadline : Deadline)
  /-- its batching state is asked for -/
  | ask (context : Nat)

/-- What an event changes, under some hash. -/
def step (hash : List UInt8 → List UInt8) (r : Registry) : Event → Registry
  | .enter => { r with contexts := r.contexts ++ [{}] }
  | .withHeaders i headers => { r with contexts := r.contexts.modify i (·.withHeaders headers) }
  | .withHeader i name value => { r with contexts := r.contexts.modify i (·.withHeader name value) }
  | .withDeadline i deadline => { r with contexts := r.contexts.modify i (·.withDeadline deadline) }
  | .ask i =>
    match r.contexts[i]? with
    | some context =>
      let (_, context, next) := context.batchingState hash r.nextToken
      ⟨r.contexts.set i context, next⟩
    | none => r

/-- The registry after some events. -/
def run (hash : List UInt8 → List UInt8) (r : Registry) : List Event → Registry
  | [] => r
  | e :: rest => run hash (r.step hash e) rest

theorem run_append (hash : List UInt8 → List UInt8) (r : Registry) (first second : List Event) :
    run hash r (first ++ second) = run hash (run hash r first) second := by
  induction first generalizing r with
  | nil => rfl
  | cons e rest ih => exact ih (r.step hash e)

/-! ## tokens -/

def token? (r : Registry) (k : Nat) : Option Nat :=
  r.contexts[k]?.bind fun x => x.settled.map BatchingState.token

def word? (r : Registry) (k : Nat) : Option UInt64 := (r.token? k).map UInt64.ofNat

/-! ## windows -/

structure Waiting where
  request : Request
  kind : OperationKind := .query
  context : Nat
  /-- a deadline of this request alone -/
  override : Option Deadline := none

/-- the request, once its context has a state -/
def Waiting.item (hash : List UInt8 → List UInt8) (r : Registry) (w : Waiting) : Item where
  request := w.request
  kind := w.kind
  caller := ((r.contexts.getD w.context {}).caller hash r.nextToken).1
  override := w.override

def byWord (r : Registry) (maxSize : Nat) : Grouping Waiting (Option UInt64) OperationKind where
  key w := r.word? w.context
  series w := w.kind
  maxSize := Grouping.sizeBound maxSize

/-- Asks the context of a request for its token, and places the request by it. -/
def visit (hash : List UInt8 → List UInt8) (maxSize : Nat)
    (s : Registry × Grouping.Progress Waiting (Option UInt64) OperationKind) (e : Entry Waiting) :
    Registry × Grouping.Progress Waiting (Option UInt64) OperationKind :=
  let r := s.1.step hash (.ask e.value.context)
  (r, (r.byWord maxSize).place s.2 e)

/-- The batches of a window, and the registry behind them.  A single request travels alone, and its
context is not asked. -/
def cut (hash : List UInt8 → List UInt8) (maxSize : Nat) (r : Registry) (window : List Waiting) :
    Registry × List (Batch Waiting) :=
  let es := entries window
  if es.length ≤ 1 then (r, es.map fun e => [e])
  else
    let (r, p) := es.foldl (visit hash maxSize) (r, .empty)
    (r, p.batches)

/-- what is asked on the way -/
def reads (window : List Waiting) : List Event :=
  if window.length ≤ 1 then [] else window.map fun w => .ask w.context

end Registry

end Coalesce
