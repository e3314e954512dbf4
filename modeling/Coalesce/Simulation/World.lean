import Coalesce.Gateway.Lane
import Coalesce.Simulation.Script

/-!
# A gateway on a virtual clock

* `World`             a gateway at work, the scripts of its targets, and the calls that come back
                      later;
* `World.submit`, `World.advance`, `World.flush`, `World.cancel`
                      what may be done to it; everything that follows without time passing is done;
* `World.Record`      what was seen, and when.

The clock only moves by `advance`, one millisecond at a time.
-/

namespace Coalesce

/-- For whom a call comes back. -/
inductive Destination where
  | delivery (id : Nat)
  | solo (ticket : Nat)

/-- A call that comes back later. -/
structure Arrival where
  target : String
  due : Nat
  destination : Destination
  call : Nat
  outcome : Outcome Json

structure World where
  gateway : Gateway
  /-- the clock at the beginning, in milliseconds since the epoch -/
  start : Int
  elapsed : Nat := 0
  state : Gateway.State := {}
  scripts : List (String × List Script) := []
  arrivals : List Arrival := []

namespace World

/-- What was seen at a target, and when. -/
structure Record where
  moment : Nat
  target : String
  effect : Effect

/-- the reading of the clock -/
def now (w : World) : Int := max 0 (Word.clamp (w.start + w.elapsed))

def scriptsOf (w : World) (target : String) : List Script := (w.scripts.lookup target).getD []

/-- the calls among effects -/
def calls (effects : List Effect) : List Call :=
  effects.filterMap fun
    | .called call _ => some call
    | _ => none

/-- What comes back later from calls just started. -/
def later (w : World) (target : String) (destination : Destination) (calls : List Call) :
    List Arrival :=
  calls.zipIdx.filterMap fun (call, index) =>
    let s := Script.nth (w.scriptsOf target) index
    if s.delay = 0 then none
    else some ⟨target, w.elapsed + s.delay, destination, index, s.outcome call.body⟩

/-- Lets an event happen at a target; calls started take its scripts in order. -/
def apply (w : World) (target : String) (destination : Destination) (e : Lane.Event) :
    World × List Record :=
  let (state, effects) := w.gateway.step w.state ⟨target, e⟩
  let calls := calls effects
  let scripts := w.scriptsOf target
  ({ w with
      state
      arrivals := w.arrivals ++ w.later target destination calls
      scripts := (target, scripts.drop calls.length) :: w.scripts.filter fun s => s.1 ≠ target },
    effects.map (Record.mk w.elapsed target))

/-- Lets an event happen that starts no call. -/
def quiet (w : World) (target : String) (e : Lane.Event) : World × List Record :=
  w.apply target (.delivery 0) e

/-! ## dispatching -/

/-- how many events it takes until nothing is left to dispatch, at most -/
def backlog (s : Scheduler.State) : Nat :=
  let batches := match s.worker with
    | .working batches => batches.length
    | .gone => 0
  batches + s.queue.length + (s.queue.flatMap Flush.items).length

/-- Dispatches windows at a target until none is left, in so many events at most. -/
def dispatch (target : String) : Nat → World → World × List Record
  | 0, w => (w, [])
  | fuel + 1, w =>
    let s := (w.state.lane target).scheduler
    let go (e : Scheduler.Event) : World × List Record :=
      let (w, records) := w.apply target (.delivery s.nextDelivery) (.scheduled e)
      let (w, more) := dispatch target fuel w
      (w, records ++ more)
    match s.worker, s.queue with
    | .working [], _ :: _ => go (.take w.now)
    | .working (_ :: _), _ => go (.serve w.now (Script.transport (w.scriptsOf target)))
    | _, _ => (w, [])

/-- the same for every target of a list -/
def dispatchAll (w : World) : List String → World × List Record
  | [] => (w, [])
  | target :: rest =>
    let (w, records) := dispatch target (backlog (w.state.lane target).scheduler) w
    let (w, more) := w.dispatchAll rest
    (w, records ++ more)

def targets (w : World) : List String := w.gateway.routes.map (·.1)

/-- everything that is ready to be dispatched -/
def dispatchReady (w : World) : World × List Record := w.dispatchAll w.targets

/-! ## timers and returning calls -/

/-- One event after the other. -/
def applyAll (w : World) : List (String × Lane.Event) → World × List Record
  | [] => (w, [])
  | (target, e) :: rest =>
    let (w, records) := w.quiet target e
    let (w, more) := w.applyAll rest
    (w, records ++ more)

/-- the timers that are due -/
def dueTimers (w : World) : List (String × Lane.Event) :=
  w.targets.flatMap fun target =>
    (w.state.lane target).scheduler.timers.filterMap fun t =>
      if t.due ≤ w.elapsed then some (target, .scheduled (.expire t.generation)) else none

/-- what a returning call is at its target -/
def Arrival.event (a : Arrival) : Lane.Event :=
  match a.destination with
  | .delivery id => .scheduled (.finish id a.call a.outcome)
  | .solo ticket => .resume ticket a.call a.outcome

/-- the calls that come back now, and the others -/
def dueArrivals (w : World) : List (String × Lane.Event) × List Arrival :=
  let (due, others) := w.arrivals.partition fun a => a.due ≤ w.elapsed
  (due.map fun a => (a.target, Arrival.event a), others)

/-- Everything that follows without time passing. -/
def settle (w : World) : World × List Record :=
  let (w, r₁) := w.dispatchReady
  let (w, r₂) := w.applyAll w.dueTimers
  let (w, r₃) := w.dispatchReady
  let (due, arrivals) := w.dueArrivals
  let (w, r₄) := { w with arrivals }.applyAll due
  (w, r₁ ++ r₂ ++ r₃ ++ r₄)

/-! ## what may be done -/

/-- Hands requests to the gateway, all before anything else happens. -/
def submitAll (w : World) : List (String × Pending) → World × List Record
  | [] => (w, [])
  | (target, p) :: rest =>
    let e : Lane.Event := .execute w.now (Script.transport (w.scriptsOf target)) p
    let (w, records) := w.apply target (.solo p.ticket) e
    let (w, more) := w.submitAll rest
    (w, records ++ more)

def submit (w : World) (requests : List (String × Pending)) : World × List Record :=
  let (w, records) := w.submitAll requests
  let (w, more) := w.settle
  (w, records ++ more)

/-- Lets time pass. -/
def advance : Nat → World → World × List Record
  | 0, w => (w, [])
  | n + 1, w =>
    let (w, records) := { w with elapsed := w.elapsed + 1 }.settle
    let (w, more) := advance n w
    (w, records ++ more)

/-- Flushes the window of a target by hand. -/
def flush (w : World) (target : String) : World × List Record :=
  let (w, records) := w.quiet target (.scheduled .flush)
  let (w, more) := w.settle
  (w, records ++ more)

/-- The caller of a request leaves. -/
def cancel (w : World) (target : String) (ticket : Nat) : World × List Record :=
  let (w, records) := w.quiet target (.leave ticket)
  let (w, more) := w.settle
  (w, records ++ more)

/-- the number of requests in the window of a target that batches -/
def pending? (w : World) (target : String) : Option Nat :=
  match w.gateway.route? target with
  | some (.batched _) => some (w.state.lane target).scheduler.pending.length
  | _ => none

end World

end Coalesce
