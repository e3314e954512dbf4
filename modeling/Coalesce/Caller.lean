import Coalesce.Header.Digest
import Coalesce.Deadline
import Coalesce.Request

/-!
# Callers

* `Context`                what an inbound request brings along: headers to forward and a deadline;
* `BatchingState`          what decides with whom it may share calls: a token of its own, and its
                           comparable headers with their digest;
* `Context.batchingState`  the state, settled when it is first asked for;
* `Caller`                 a context whose state is settled, as requests hold it;
* `Item`                   one request of a caller.

Tokens are numbered in the order in which states are settled.
-/

namespace Coalesce

structure BatchingState where
  token : Nat
  headers : Headers
  digest : HeaderDigest
  deriving DecidableEq, Inhabited

namespace BatchingState

/-- the state for headers, under some hash -/
def compute (hash : List UInt8 → List UInt8) (token : Nat) (headers : Headers) : BatchingState :=
  ⟨token, headers.comparable, .of hash headers.comparable⟩

/-- The digests are compared first, and then the headers themselves. -/
def sameHeaders (a b : BatchingState) : Bool :=
  a.digest = b.digest && a.headers = b.headers

end BatchingState

structure Context where
  headers : Headers := []
  deadline : Option Deadline := none
  /-- the batching state, once settled -/
  settled : Option BatchingState := none
  deriving Inhabited

namespace Context

def withHeaders (c : Context) (headers : Headers) : Context := { c with headers := headers }

/-- adds one value to the headers -/
def withHeader (c : Context) (name value : String) : Context :=
  { c with headers := c.headers.add name value }

def withDeadline (c : Context) (deadline : Deadline) : Context :=
  { c with deadline := some deadline }

/-- The batching state, the context that now holds it, and the next free token. -/
def batchingState (hash : List UInt8 → List UInt8) (nextToken : Nat) (c : Context) :
    BatchingState × Context × Nat :=
  match c.settled with
  | some s => (s, c, nextToken)
  | none =>
    let s := BatchingState.compute hash nextToken c.headers
    (s, { c with settled := some s }, nextToken + 1)

end Context

structure Caller where
  headers : Headers
  deadline : Option Deadline
  state : BatchingState
  deriving Inhabited

/-- The caller of a context, and the next free token. -/
def Context.caller (hash : List UInt8 → List UInt8) (nextToken : Nat) (c : Context) :
    Caller × Nat :=
  let (s, c, next) := c.batchingState hash nextToken
  (⟨c.headers, c.deadline, s⟩, next)

structure Item where
  request : Request
  kind : OperationKind := .query
  caller : Caller
  /-- a deadline of this request alone -/
  override : Option Deadline := none
  deriving Inhabited

namespace Item

/-- its own deadline, or else the one of its caller -/
def deadline (i : Item) : Option Deadline := i.override.orElse fun _ => i.caller.deadline

def isSubscription (i : Item) : Bool := i.kind = .subscription

end Item

/-- the earliest deadline of some requests -/
def earliestDeadline (items : List Item) : Option Deadline :=
  Deadline.aggregate (items.map Item.deadline)

end Coalesce
