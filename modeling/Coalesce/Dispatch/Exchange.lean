import Coalesce.Batch.Layout
import Coalesce.Dispatch.Target

/-!
# Exchanges

* `Transport`          what becomes of calls when they are started, and the round of the merger;
* `Exchange`           calls that were started together, and what came back so far;
* `Target.start`       starts the calls for some requests;
* `Exchange.resume`    takes what comes back later.

Calls are started in order.  One failure ends the exchange: a failure on starting keeps the later
calls from being started.  With many calls a failure counts only once all calls before it are
answered.
-/

namespace Coalesce

/-- What foreign code does when calls are started. -/
structure Transport where
  /-- what becomes of a call, by its position in the exchange: its outcome, or nothing yet -/
  reply : Nat → Call → Option (Outcome Json)
  /-- the round in which a merger is asked for the calls -/
  round : Nat := 0

instance : CoeFun Transport fun _ => Nat → Call → Option (Outcome Json) := ⟨Transport.reply⟩

/-- A transport that answers nothing at once. -/
def Transport.silent : Transport := ⟨fun _ _ => none, 0⟩

/-- What came back for a call. -/
inductive Slot where
  | waiting
  | done (results : List Json)
  /-- not yet noticed -/
  | failed (cause : Error)

structure Exchange where
  calls : List EncodedCall
  slots : List Slot

/-- How far an exchange is. -/
inductive Progress where
  | running (exchange : Exchange)
  | ended (result : Outcome (List Json))

namespace Exchange

/-- more calls than this are answered in order -/
def unorderedLimit : Nat := 30

def inOrder (calls : List EncodedCall) : Bool := unorderedLimit < calls.length

/-- The failure that ends an exchange. -/
def failure? (inOrder : Bool) : List Slot → Option Error
  | [] => none
  | .failed cause :: _ => some cause
  | .done _ :: rest => failure? inOrder rest
  | .waiting :: rest => if inOrder then none else failure? inOrder rest

/-- the results of all calls -/
def results? : List Slot → Option (List (List Json))
  | [] => some []
  | .done results :: rest => (results? rest).map (results :: ·)
  | _ :: _ => none

/-- the results in the order of the requests -/
def restore (calls : List EncodedCall) (results : List (List Json)) : Outcome (List Json) :=
  .ofExcept ((Layout.mk (calls.map (·.members))).restore results)

/-- How far an exchange is, by its slots. -/
def progress (e : Exchange) : Progress :=
  match failure? (inOrder e.calls) e.slots with
  | some cause => .ended (.failed cause)
  | none =>
    match results? e.slots with
    | some results => .ended (restore e.calls results)
    | none => .running e

/-- Takes the outcome of a call. -/
def resume (codec : Codec) (e : Exchange) (index : Nat) (outcome : Outcome Json) : Progress :=
  match e.calls[index]?, e.slots[index]? with
  | some call, some .waiting =>
    match outcome.bind (codec.decode call) with
    | .crashed => .ended .crashed
    | .failed cause => progress { e with slots := e.slots.set index (.failed cause) }
    | .done results => progress { e with slots := e.slots.set index (.done results) }
  | _, _ => .running e

/-- Starts the calls that are left, with the slots of those before; gives the calls started. -/
def launch (codec : Codec) (all : List EncodedCall)
    (reply : EncodedCall → Nat → Option (Outcome Json)) (slots : List Slot) :
    List EncodedCall → List EncodedCall × Progress
  | [] => ([], progress ⟨all, slots⟩)
  | call :: rest =>
    let onward (slot : Slot) : List EncodedCall × Progress :=
      match failure? (inOrder all) (slots ++ [slot]) with
      | some cause => ([call], .ended (.failed cause))
      | none =>
        let (started, p) := launch codec all reply (slots ++ [slot]) rest
        (call :: started, p)
    match reply call slots.length with
    | none => onward .waiting
    | some outcome =>
      match outcome.bind (codec.decode call) with
      | .crashed => ([call], .ended .crashed)
      | .failed cause => onward (.failed cause)
      | .done results => onward (.done results)

end Exchange

namespace Target

/-- Starts the calls for some requests: the calls started, and how far that led. -/
def start (t : Target) (now : Int) (transport : Transport) : List Item → List Call × Progress
  | [] => ([], .ended (.done []))
  | first :: rest =>
    match t.prepare now transport.round first rest with
    | .crashed => ([], .ended .crashed)
    | .failed cause => ([], .ended (.failed cause))
    | .done s =>
      let reply (c : EncodedCall) (index : Nat) := transport index (t.call s c)
      let (started, p) := Exchange.launch t.codec s.calls reply [] s.calls
      (started.map (t.call s), p)

/-- the one result of a request that was sent alone -/
def onlyResult (results : List Json) : Except Error Json :=
  match results.getLast? with
  | some r => .ok r
  | none => .error (.runtime .noResult)

end Target

end Coalesce
