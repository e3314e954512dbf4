import Coalesce.Dispatch.Exchange
import Coalesce.Notice
import Coalesce.Strategy

/-!
# Schedulers

* `Scheduler`          a target whose requests are batched, and its settings;
* `Scheduler.State`    the open window, the windows on their way, and the batches being served;
* `Scheduler.Event`    what may happen next: everything that is not decided here is in the event,
                       such as the time, the order of events, and what comes back from calls;
* `Scheduler.step`     what an event changes, and its effects.

A window is flushed when it is full, when its timer fires, or by hand.  Flushed windows are
dispatched one after the other: the requests that are still worth answering are cut into batches,
and the batches are served in order.  A batch that crashes on starting takes the dispatcher down;
from then on every window is lost.
-/

namespace Coalesce

/-- A request that waits for its answer. -/
structure Pending where
  ticket : Nat
  item : Item
  /-- the moment of its arrival, in milliseconds of a clock that never goes back -/
  arrived : Nat

/-- A flushed window. -/
structure Flush where
  trigger : Trigger
  items : List Pending

/-- A timer that has not fired. -/
structure Timer where
  generation : Nat
  due : Nat
  deriving DecidableEq

/-- A batch that waits for its calls. -/
structure Delivery where
  id : Nat
  members : List Pending
  exchange : Exchange

/-- What an event does to the world. -/
inductive Effect where
  /-- a call was started for the requests of a batch -/
  | called (call : Call) (batch : List Pending)
  | answered (ticket : Nat) (result : Except Error Json)
  /-- a request that was sent alone crashed, and its caller with it -/
  | crashed (ticket : Nat)
  | noted (notice : Notice)

structure Scheduler where
  target : Target
  settings : Settings

namespace Scheduler

/-- What the dispatcher is doing. -/
inductive Worker where
  /-- the batches of a window that are still to be served -/
  | working (batches : List (List Pending))
  | gone

/-- Everything a scheduler holds. -/
structure State where
  pending : List Pending := []
  /-- counts flushes, so that an old timer is known to be old -/
  generation : Nat := 0
  timers : List Timer := []
  queue : List Flush := []
  worker : Worker := .working []
  deliveries : List Delivery := []
  /-- the number of the next batch to be served, whether or not it will have to wait -/
  nextDelivery : Nat := 0
  /-- tickets of callers that have left -/
  left : List Nat := []

inductive Event where
  | submit (request : Pending)
  | leave (ticket : Nat)
  /-- the timer of a window fires, be it late -/
  | expire (generation : Nat)
  | flush
  /-- the dispatcher takes the next window, at some reading of the clock -/
  | take (now : Int)
  /-- the dispatcher serves the next batch -/
  | serve (now : Int) (transport : Transport)
  /-- a call comes back -/
  | finish (delivery call : Nat) (outcome : Outcome Json)

/-! ## answers -/

/-- An answer, to a caller that is still there. -/
def answer (s : State) (p : Pending) (result : Except Error Json) : List Effect :=
  if p.ticket ∈ s.left then [] else [.answered p.ticket result]

/-- Tells callers that no answer will come. -/
def drop (c : Scheduler) (s : State) (ps : List Pending) : List Effect :=
  ps.flatMap fun p => answer s p (.error (.runtime (.replyDropped c.target.name)))

/-- Answers with results in order. -/
def deliver (c : Scheduler) (s : State) : List Pending → List Json → List Effect
  | p :: ps, r :: rs => answer s p (.ok r) ++ deliver c s ps rs
  | ps, [] => c.drop s ps
  | [], _ :: _ => []

/-- Tells all callers of a batch the same error. -/
def refuse (c : Scheduler) (s : State) (members : List Pending) (cause : Error) : List Effect :=
  .noted (.batchFailed c.target.name members.length cause)
    :: members.flatMap fun p => answer s p (.error cause)

/-! ## windows -/

/-- Flushes the window. -/
def close (c : Scheduler) (trigger : Trigger) (s : State) : State × List Effect :=
  let items := s.pending
  let s := { s with pending := [], generation := s.generation + 1 }
  if items.isEmpty then (s, [])
  else
    match s.worker with
    | .working _ => ({ s with queue := s.queue ++ [⟨trigger, items⟩] }, [])
    | .gone => (s, .noted (.windowLost c.target.name items.length) :: c.drop s items)

/-- Puts a request into the window; the first one starts its timer. -/
def submit (c : Scheduler) (p : Pending) (s : State) : State × List Effect :=
  let s := { s with pending := s.pending ++ [p] }
  if c.settings.waitQueries ≤ s.pending.length then c.close .size s
  else if s.pending.length = 1 then
    let timer : Timer := ⟨s.generation, p.arrived + c.settings.waitMillis⟩
    ({ s with timers := s.timers ++ [timer] }, [])
  else (s, [])

/-- A timer fires; it flushes the window that it was started for, if that one is still open. -/
def expire (c : Scheduler) (generation : Nat) (s : State) : State × List Effect :=
  if s.timers.any fun t => t.generation = generation then
    let s := { s with timers := s.timers.filter fun t => t.generation ≠ generation }
    if generation = s.generation then c.close .timer s else (s, [])
  else (s, [])

/-! ## dispatching -/

/-- Whether a request can still be answered in time. -/
def inTime (c : Scheduler) (now : Int) (p : Pending) : Except Error (Option Duration) :=
  callTimeout none p.item.deadline now c.target.padding

/-- The requests of a window whose callers wait and can be answered in time, and the answers to
those that come too late. -/
def sift (c : Scheduler) (now : Int) (s : State) : List Pending → List Pending × List Effect
  | [] => ([], [])
  | p :: rest =>
    let (live, effects) := sift c now s rest
    if p.ticket ∈ s.left then (live, effects)
    else
      match c.inTime now p with
      | .ok _ => (p :: live, effects)
      | .error cause => (live, answer s p (.error cause) ++ effects)

/-- The batches of requests. -/
def batches (c : Scheduler) (live : List Pending) : List (List Pending) :=
  (c.settings.strategy.partition c.settings.maxSize (live.map (·.item))).map fun b =>
    b.indices.filterMap fun i => live[i]?

/-- Takes the next window. -/
def take (c : Scheduler) (now : Int) (s : State) : State × List Effect :=
  match s.worker, s.queue with
  | .working [], f :: queue =>
    let (live, effects) := c.sift now s f.items
    if live.isEmpty then ({ s with queue }, effects)
    else
      let batches := c.batches live
      ({ s with queue, worker := .working batches },
        effects ++ [.noted (.flushed c.target.name c.settings.strategy f.trigger live.length
          batches.length)])
  | _, _ => (s, [])

/-- The dispatcher crashes: what it holds and what waits for it is lost. -/
def crash (c : Scheduler) (lost : List Pending) (s : State) : State × List Effect :=
  ({ s with worker := .gone, queue := [] },
    c.drop s (lost ++ s.queue.flatMap Flush.items))

/-- Serves the next batch. -/
def serve (c : Scheduler) (now : Int) (transport : Transport) (s : State) :
    State × List Effect :=
  match s.worker with
  | .working (members :: rest) =>
    let (calls, p) := c.target.start now transport (members.map (·.item))
    let calls := calls.map fun call => Effect.called call members
    let id := s.nextDelivery
    let s := { s with worker := .working rest, nextDelivery := id + 1 }
    match p with
    | .running exchange =>
      ({ s with deliveries := s.deliveries ++ [⟨id, members, exchange⟩] }, calls)
    | .ended (.done results) => (s, calls ++ c.deliver s members results)
    | .ended (.failed cause) => (s, calls ++ c.refuse s members cause)
    | .ended .crashed =>
      let (s, effects) := c.crash (members ++ rest.flatten) s
      (s, calls ++ effects)
  | _ => (s, [])

/-- A call comes back; a crash now is the end of its own batch alone. -/
def finish (c : Scheduler) (delivery call : Nat) (outcome : Outcome Json) (s : State) :
    State × List Effect :=
  match s.deliveries.find? fun d => d.id = delivery with
  | none => (s, [])
  | some d =>
    let without := { s with deliveries := s.deliveries.filter fun d => d.id ≠ delivery }
    match d.exchange.resume c.target.codec call outcome with
    | .running exchange =>
      ({ s with deliveries := s.deliveries.map fun d =>
          if d.id = delivery then { d with exchange } else d }, [])
    | .ended (.done results) => (without, c.deliver s d.members results)
    | .ended (.failed cause) => (without, c.refuse s d.members cause)
    | .ended .crashed => (without, c.drop s d.members)

def step (c : Scheduler) (s : State) : Event → State × List Effect
  | .submit p => c.submit p s
  | .leave ticket => ({ s with left := ticket :: s.left }, [])
  | .expire generation => c.expire generation s
  | .flush => c.close .manual s
  | .take now => c.take now s
  | .serve now transport => c.serve now transport s
  | .finish delivery call outcome => c.finish delivery call outcome s

/-- The state after some events, and all effects in order. -/
def run (c : Scheduler) (s : State) : List Event → State × List Effect
  | [] => (s, [])
  | e :: rest =>
    let (s, effects) := c.step s e
    let (s, more) := run c s rest
    (s, effects ++ more)

theorem run_nil (c : Scheduler) (s : State) : c.run s [] = (s, []) := rfl

theorem run_cons (c : Scheduler) (s : State) (e : Event) (rest : List Event) :
    c.run s (e :: rest)
      = ((c.run (c.step s e).1 rest).1, (c.step s e).2 ++ (c.run (c.step s e).1 rest).2) := rfl

theorem run_append (c : Scheduler) (s : State) (first second : List Event) :
    c.run s (first ++ second)
      = ((c.run (c.run s first).1 second).1,
          (c.run s first).2 ++ (c.run (c.run s first).1 second).2) := by
  induction first generalizing s with
  | nil => simp [run_nil]
  | cons e rest ih => rw [List.cons_append, run_cons, ih, run_cons, List.append_assoc]

end Scheduler

end Coalesce
