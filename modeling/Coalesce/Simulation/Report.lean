import Coalesce.Dispatch.Execution
import Coalesce.Simulation.World

/-!
# Reports on a gateway on a virtual clock

* `Session`        a world in which requests have names;
* `Session.Step`   what may be done;
* `Report`         what was seen on the way: calls, answers and notices, each in a fixed order;
* `Session.step`   does it, and reports.

Calls are ordered by moment and target, answers by moment and name, and notices by moment, target
and message; failed batches with the same place are ordered by their errors.
-/

namespace Coalesce

/-- A world in which requests have names: the name of a ticket is found at its position. -/
structure Session where
  world : World
  /-- names and targets of all requests so far -/
  requests : List (String × String) := []
  /-- tickets of requests that are not waiting any more -/
  settled : List Nat := []

/-- A request with its name, and where it goes. -/
structure Submission where
  name : String
  target : String
  item : Item

structure Report where
  moment : Nat
  pending : List (String × Nat)
  calls : List (Nat × Call)
  answers : List (Nat × String × Except Error Json)
  notices : List (Nat × Notice)

namespace Session

inductive Step where
  | submit (requests : List Submission)
  | advance (millis : Nat)
  | flush (target : String)
  | cancel (name : String)

def name (s : Session) (ticket : Nat) : String := (s.requests[ticket]?.map (·.1)).getD ""

/-- Orders by a comparison, and by a second one where the first one says nothing. -/
def thenBy {α : Type} (first second : α → α → Ordering) (a b : α) : Ordering :=
  (first a b).then (second a b)

def sorted {α : Type} (order : α → α → Ordering) (xs : List α) : List α :=
  xs.mergeSort fun a b => (order a b).isLE

def callOrder : Nat × Call → Nat × Call → Ordering :=
  thenBy (fun a b => compare a.1 b.1) (fun a b => compare a.2.target b.2.target)

def answerOrder (a b : Nat × String × Except Error Json) : Ordering :=
  (compare a.1 b.1).then (compare a.2.1 b.2.1)

/-- of two failed batches, the one with the lesser error -/
def failureOrder : Notice → Notice → Ordering
  | .batchFailed _ n e, .batchFailed _ m f => (compare e.message f.message).then (compare n m)
  | _, _ => .eq

def noticeOrder (a b : Nat × Notice) : Ordering :=
  (compare a.1 b.1).then ((compare (a.2.target?.getD "") (b.2.target?.getD "")).then
    ((compare a.2.message b.2.message).then (failureOrder a.2 b.2)))

/-- tickets that are answered, or whose caller crashed -/
def settledBy : Effect → Option Nat
  | .answered ticket _ | .crashed ticket => some ticket
  | _ => none

/-- The report on what was seen. -/
def report (s : Session) (records : List World.Record) : Report where
  moment := s.world.elapsed
  pending := s.world.targets.filterMap fun t => (s.world.pending? t).map fun n => (t, n)
  calls := sorted callOrder (records.filterMap fun r =>
    match r.effect with
    | .called call _ => some (r.moment, call)
    | _ => none)
  answers := sorted answerOrder (records.filterMap fun r =>
    match r.effect with
    | .answered ticket result => some (r.moment, s.name ticket, result)
    | _ => none)
  notices := sorted noticeOrder (records.filterMap fun r =>
    match r.effect with
    | .noted notice => some (r.moment, notice)
    | _ => none)

/-- the session after something was seen, and the report on it -/
def after (s : Session) (seen : World × List World.Record) : Session × Report :=
  let s := { s with
    world := seen.1
    settled := seen.2.filterMap (fun r => settledBy r.effect) ++ s.settled }
  (s, s.report seen.2)

/-- the ticket of a request that is still waiting -/
def ticket? (s : Session) (name : String) : Option Nat :=
  (List.range s.requests.length).find? fun t => s.name t = name && !s.settled.contains t

/-- Does a step and reports. -/
def step (s : Session) : Step → Session × Report
  | .submit requests =>
    let first := s.requests.length
    let pendings := requests.zipIdx.map fun (r, i) =>
      (r.target, (⟨first + i, r.item, s.world.elapsed⟩ : Pending))
    let named := requests.map fun (r : Submission) => (r.name, r.target)
    let s := { s with requests := s.requests ++ named }
    s.after (s.world.submit pendings)
  | .advance millis => s.after (World.advance millis s.world)
  | .flush target => s.after (s.world.flush target)
  | .cancel name =>
    match s.ticket? name with
    | some ticket =>
      let target := (s.requests[ticket]?.map (·.2)).getD ""
      { s with settled := ticket :: s.settled }.after (s.world.cancel target ticket)
    | none => s.after (s.world, [])

/-- Does steps in order. -/
def steps (s : Session) : List Step → Session × List Report
  | [] => (s, [])
  | step :: rest =>
    let (s, report) := s.step step
    let (s, reports) := s.steps rest
    (s, report :: reports)

/-- the names of the requests that are still waiting -/
def waiting (s : Session) : List String :=
  sorted compare ((List.range s.requests.length).filterMap fun t =>
    if s.settled.contains t then none else some (s.name t))

end Session

/-! ## one exchange -/

/-- Calls of one exchange that come back later. -/
structure Solitary where
  calls : List Call
  result : Outcome (List Json)
  moment : Nat

namespace Solitary

/-- what comes back later, in order, with the moments of it -/
def back (scripts : List Script) (calls : List Call) : List (Nat × Nat × Outcome Json) :=
  let later := calls.zipIdx.filterMap fun (call, index) =>
    let s := Script.nth scripts index
    if s.delay = 0 then none else some (s.delay, index, s.outcome call.body)
  later.mergeSort fun a b => a.1 ≤ b.1

/-- Takes what comes back; the moment is that of the end, once it has come. -/
def follow (codec : Codec) (seen : Progress × Nat) (came : Nat × Nat × Outcome Json) :
    Progress × Nat :=
  match seen.1 with
  | .running _ => (seen.1.take codec came.2, came.1)
  | .ended _ => seen

/-- Sends requests to a target at once, with scripted answers, and waits for the end. -/
def run (t : Target) (now : Int) (scripts : List Script) (items : List Item) : Solitary :=
  let (calls, progress) := t.start now (Script.transport scripts) items
  let (progress, moment) := (back scripts calls).foldl (follow t.codec) (progress, 0)
  ⟨calls, progress.result, moment⟩

theorem follow_progress (codec : Codec) (seen : Progress × Nat)
    (came : List (Nat × Nat × Outcome Json)) :
    (came.foldl (follow codec) seen).1 = (came.map (·.2)).foldl (Progress.take codec) seen.1 := by
  induction came generalizing seen with
  | nil => rfl
  | cons x rest ih =>
    have hfirst : (follow codec seen x).1 = seen.1.take codec x.2 := by
      unfold follow
      split
      · rfl
      · rename_i result hended
        rw [hended]
        rfl
    rw [List.foldl_cons, List.map_cons, List.foldl_cons, ih, hfirst]

/-- What it comes to is all that becomes of the requests. -/
theorem run_result (t : Target) (now : Int) (scripts : List Script) (items : List Item) :
    (run t now scripts items).result
      = (t.execute now (Script.transport scripts) items
          ((back scripts (run t now scripts items).calls).map (·.2))).result :=
  congrArg Progress.result (follow_progress t.codec _ _)

end Solitary

end Coalesce
