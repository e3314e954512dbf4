import Coalesce.Gateway.Build

/-!
# Gateways at work

* `Lane`             what goes on at one target: its scheduler's state, and the requests sent alone;
* `Lane.step`        what an event changes at one target;
* `Gateway.State`    the lanes of all targets;
* `Gateway.step`     what an event changes, and its effects.

Subscriptions, and all requests to a target that does not batch, are sent alone and at once.  An
event belongs to one target and changes nothing at any other.
-/

namespace Coalesce

/-- A request that was sent alone. -/
structure Solo where
  request : Pending
  exchange : Exchange

structure Lane where
  scheduler : Scheduler.State := {}
  solos : List Solo := []

namespace Lane

/-- What may happen at one target. -/
inductive Event where
  /-- a request comes in, at some reading of the clock -/
  | execute (now : Int) (transport : Transport) (request : Pending)
  /-- a call comes back for a request that was sent alone -/
  | resume (ticket call : Nat) (outcome : Outcome Json)
  | leave (ticket : Nat)
  | scheduled (event : Scheduler.Event)

/-- What comes of a request that was sent alone. -/
def conclude (ticket : Nat) : Outcome (List Json) → Effect
  | .done results => .answered ticket (Target.onlyResult results)
  | .failed cause => .answered ticket (.error cause)
  | .crashed => .crashed ticket

/-- Sends a request alone. -/
def sendAlone (t : Target) (now : Int) (transport : Transport) (p : Pending) (l : Lane) :
    Lane × List Effect :=
  let (calls, progress) := t.start now transport [p.item]
  let calls := calls.map fun call => Effect.called call [p]
  match progress with
  | .running exchange => ({ l with solos := l.solos ++ [⟨p, exchange⟩] }, calls)
  | .ended result => (l, calls ++ [conclude p.ticket result])

/-- A call comes back for a request that was sent alone. -/
def resume (t : Target) (ticket call : Nat) (outcome : Outcome Json) (l : Lane) :
    Lane × List Effect :=
  match l.solos.find? fun s => s.request.ticket = ticket with
  | none => (l, [])
  | some solo =>
    let others := l.solos.filter fun s => s.request.ticket ≠ ticket
    match solo.exchange.resume t.codec call outcome with
    | .running exchange => ({ l with solos := others ++ [{ solo with exchange }] }, [])
    | .ended result => ({ l with solos := others }, [conclude ticket result])

/-- Hands an event to the scheduler of a target that has one. -/
def schedule (r : Route) (e : Scheduler.Event) (l : Lane) : Lane × List Effect :=
  match r with
  | .batched c =>
    let (s, effects) := c.step l.scheduler e
    ({ l with scheduler := s }, effects)
  | .alone _ => (l, [])

def step (r : Route) (l : Lane) : Event → Lane × List Effect
  | .execute now transport p =>
    match r with
    | .batched c =>
      if p.item.isSubscription then l.sendAlone c.target now transport p
      else l.schedule r (.submit p)
    | .alone t => l.sendAlone t now transport p
  | .resume ticket call outcome => l.resume r.target ticket call outcome
  | .leave ticket =>
    let l := { l with solos := l.solos.filter fun s => s.request.ticket ≠ ticket }
    l.schedule r (.leave ticket)
  | .scheduled e => l.schedule r e

end Lane

namespace Gateway

/-- What may happen at a gateway. -/
structure Event where
  target : String
  event : Lane.Event

/-- The lanes of targets at which something happened. -/
structure State where
  lanes : List (String × Lane) := []

def State.lane (s : State) (target : String) : Lane := (s.lanes.lookup target).getD {}

def State.withLane (s : State) (target : String) (lane : Lane) : State :=
  ⟨(target, lane) :: s.lanes.filter fun l => l.1 ≠ target⟩

/-- What an event changes, and its effects; nobody answers for an unknown target. -/
def step (g : Gateway) (s : State) (e : Event) : State × List Effect :=
  match g.route? e.target with
  | some route =>
    let (lane, effects) := (s.lane e.target).step route e.event
    (s.withLane e.target lane, effects)
  | none =>
    match e.event with
    | .execute _ _ p => (s, [.answered p.ticket (.error (.runtime (.unknownTarget e.target)))])
    | _ => (s, [])

/-- The state after some events, and all effects in order. -/
def run (g : Gateway) (s : State) : List Event → State × List Effect
  | [] => (s, [])
  | e :: rest =>
    let (s, effects) := g.step s e
    let (s, more) := g.run s rest
    (s, effects ++ more)

theorem run_nil (g : Gateway) (s : State) : g.run s [] = (s, []) := rfl

theorem run_cons (g : Gateway) (s : State) (e : Event) (rest : List Event) :
    g.run s (e :: rest)
      = ((g.run (g.step s e).1 rest).1, (g.step s e).2 ++ (g.run (g.step s e).1 rest).2) := rfl

theorem run_append (g : Gateway) (s : State) (first second : List Event) :
    g.run s (first ++ second)
      = ((g.run (g.run s first).1 second).1,
          (g.run s first).2 ++ (g.run (g.run s first).1 second).2) := by
  induction first generalizing s with
  | nil => simp [run_nil]
  | cons e rest ih => rw [List.cons_append, run_cons, ih, run_cons, List.append_assoc]

end Gateway

end Coalesce
