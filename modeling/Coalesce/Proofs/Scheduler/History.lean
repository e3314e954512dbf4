import Coalesce.Proofs.Dispatch.Exchange
import Coalesce.Scheduler
import Mathlib.Data.List.Basic

/-!
# Histories of a scheduler

* `answers`, `answersTo`   the answers among some effects, and those to one ticket;
* `Scheduler.Moment`       a state, and what happened in it;
* `Scheduler.History`      what happened since the start, where that led, and its effects;
* `Scheduler.Serving`      one batch that was served: its number is its position among all of them;
* `Scheduler.CameBack`     the responses to the calls of a served batch;
* `Scheduler.formed`       the batches that windows were cut into, whether or not they were served.

A history ends with its last moment, so that invariants are shown by one step at a time.
-/

namespace Coalesce

/-! ## effects -/

def Effect.answer? : Effect → Option (Nat × Except Error Json)
  | .answered ticket result => some (ticket, result)
  | _ => none

def Effect.call? : Effect → Option (Call × List Pending)
  | .called call batch => some (call, batch)
  | _ => none

/-- the answers among some effects, with their tickets -/
def answers (effects : List Effect) : List (Nat × Except Error Json) :=
  effects.filterMap Effect.answer?

def answersTo (ticket : Nat) (effects : List Effect) : List (Except Error Json) :=
  ((answers effects).filter fun a => a.1 = ticket).map (·.2)

/-- the calls among some effects, with their batches -/
def calls (effects : List Effect) : List (Call × List Pending) := effects.filterMap Effect.call?

theorem answers_append (first second : List Effect) :
    answers (first ++ second) = answers first ++ answers second := List.filterMap_append

theorem calls_append (first second : List Effect) :
    calls (first ++ second) = calls first ++ calls second := List.filterMap_append

theorem answers_called (called : List Call) (batch : List Pending) :
    answers (called.map fun call => Effect.called call batch) = [] := by
  unfold answers
  rw [List.filterMap_map]
  exact List.filterMap_eq_nil_iff.mpr fun call _ => rfl

theorem calls_called (called : List Call) (batch : List Pending) :
    calls (called.map fun call => Effect.called call batch)
      = called.map fun call => (call, batch) := by
  unfold calls
  rw [List.filterMap_map]
  exact congrFun List.filterMap_eq_map called

namespace Scheduler

/-! ## moments -/

structure Moment where
  state : State
  event : Event

inductive History (c : Scheduler) : List Moment → State → List Effect → Prop where
  | start : History c [] {} []
  | next {past : List Moment} {s : State} {effects : List Effect} (h : History c past s effects)
      (e : Event) : History c (past ++ [⟨s, e⟩]) (c.step s e).1 (effects ++ (c.step s e).2)

/-- the moments of some events -/
def moments (c : Scheduler) (s : State) : List Event → List Moment
  | [] => []
  | e :: rest => ⟨s, e⟩ :: moments c (c.step s e).1 rest

theorem moments_append (c : Scheduler) (s : State) (first second : List Event) :
    c.moments s (first ++ second) = c.moments s first ++ c.moments (c.run s first).1 second := by
  induction first generalizing s with
  | nil => rfl
  | cons e rest ih => exact congrArg (⟨s, e⟩ :: ·) (ih (c.step s e).1)

theorem moments_snoc (c : Scheduler) (s : State) (es : List Event) (e : Event) :
    c.moments s (es ++ [e]) = c.moments s es ++ [⟨(c.run s es).1, e⟩] :=
  c.moments_append s es [e]

theorem moments_events (c : Scheduler) (s : State) (es : List Event) :
    (c.moments s es).map (·.event) = es := by
  induction es generalizing s with
  | nil => rfl
  | cons e rest ih =>
    show e :: (c.moments (c.step s e).1 rest).map (·.event) = _
    rw [ih]

/-- Every run is a history. -/
theorem history_run (c : Scheduler) (es : List Event) :
    c.History (c.moments {} es) (c.run {} es).1 (c.run {} es).2 := by
  induction es using List.reverseRecOn with
  | nil => exact .start
  | append_singleton es e ih =>
    rw [moments_snoc, run_append]
    show c.History _ (c.step (c.run {} es).1 e).1
      ((c.run {} es).2 ++ ((c.step (c.run {} es).1 e).2 ++ []))
    rw [List.append_nil]
    exact .next ih e

theorem History.last {c : Scheduler} {past : List Moment} {m : Moment} {s : State}
    {effects : List Effect} (h : c.History (past ++ [m]) s effects) :
    ∃ told, c.History past m.state told ∧ s = (c.step m.state m.event).1 ∧
      effects = told ++ (c.step m.state m.event).2 := by
  generalize hall : past ++ [m] = all at h
  cases h with
  | start => exact absurd hall (List.append_ne_nil_of_right_ne_nil _ (List.cons_ne_nil _ _))
  | next h e =>
    obtain ⟨rfl, hm⟩ := List.append_inj' hall rfl
    cases hm
    exact ⟨_, h, rfl, rfl⟩

/-- A history falls into what came before a moment, this moment, and what came after it. -/
theorem History.split {c : Scheduler} {before after : List Moment} {m : Moment} {s : State}
    {effects : List Effect} (h : c.History (before ++ m :: after) s effects) :
    ∃ told more, c.History before m.state told ∧
      effects = told ++ ((c.step m.state m.event).2 ++ more) := by
  induction after using List.reverseRecOn generalizing s effects with
  | nil =>
    obtain ⟨told, htold, _, heffects⟩ := h.last
    exact ⟨told, [], htold, by rw [List.append_nil, heffects]⟩
  | append_singleton after n ih =>
    rw [← List.cons_append, ← List.append_assoc] at h
    obtain ⟨earlier, hearlier, _, rfl⟩ := h.last
    obtain ⟨told, more, htold, rfl⟩ := ih hearlier
    exact ⟨told, more ++ (c.step n.state n.event).2, htold, by simp only [List.append_assoc]⟩

theorem History.before {c : Scheduler} {past : List Moment} {s : State} {effects : List Effect}
    (h : c.History past s effects) {m : Moment} (hm : m ∈ past) :
    ∃ before after effects', past = before ++ m :: after ∧ c.History before m.state effects' := by
  obtain ⟨before, after, rfl⟩ := List.append_of_mem hm
  obtain ⟨told, _, htold, _⟩ := h.split
  exact ⟨before, after, told, rfl, htold⟩

/-! ## what is read off moments -/

/-- the requests that come in -/
def Event.arrivals : Event → List Pending
  | .submit p => [p]
  | _ => []

def arrivals (past : List Moment) : List Pending := past.flatMap fun m => m.event.arrivals

theorem arrivals_append (past more : List Moment) :
    arrivals (past ++ more) = arrivals past ++ arrivals more := List.flatMap_append

theorem arrivals_snoc (past : List Moment) (m : Moment) :
    arrivals (past ++ [m]) = arrivals past ++ m.event.arrivals := by
  unfold arrivals
  rw [List.flatMap_append, List.flatMap_singleton]

/-- the batches that the dispatcher holds -/
def Worker.batches : Worker → List (List Pending)
  | .working batches => batches
  | .gone => []

structure Serving where
  now : Int
  transport : Transport
  batch : List Pending

/-- the calls started for it -/
def Serving.called (c : Scheduler) (v : Serving) : List Call :=
  (c.target.start v.now v.transport (v.batch.map (·.item))).1

/-- how far that led -/
def Serving.progress (c : Scheduler) (v : Serving) : Progress :=
  (c.target.start v.now v.transport (v.batch.map (·.item))).2

def Moment.serving? (m : Moment) : Option Serving :=
  match m.event, m.state.worker with
  | .serve now transport, .working (batch :: _) => some ⟨now, transport, batch⟩
  | _, _ => none

/-- all batches served, in order -/
def servings (past : List Moment) : List Serving := past.filterMap Moment.serving?

theorem servings_append (past more : List Moment) :
    servings (past ++ more) = servings past ++ servings more := List.filterMap_append

theorem servings_snoc (past : List Moment) (m : Moment) :
    servings (past ++ [m]) = servings past ++ m.serving?.toList := by
  unfold servings
  rw [List.filterMap_append]
  cases h : m.serving? with
  | none => simp [h]
  | some v => simp [h]

def Moment.formed (c : Scheduler) (m : Moment) : List (List Pending) :=
  match m.event, m.state.worker, m.state.queue with
  | .take now, .working [], f :: _ => c.batches (c.sift now m.state f.items).1
  | _, _, _ => []

/-- all batches formed, in order -/
def formed (c : Scheduler) (past : List Moment) : List (List Pending) :=
  past.flatMap fun m => m.formed c

theorem formed_append (c : Scheduler) (past more : List Moment) :
    c.formed (past ++ more) = c.formed past ++ c.formed more := List.flatMap_append

theorem formed_snoc (c : Scheduler) (past : List Moment) (m : Moment) :
    c.formed (past ++ [m]) = c.formed past ++ m.formed c := by
  unfold formed
  rw [List.flatMap_append, List.flatMap_singleton]

/-- A response to a call of a served batch: at once, or later when the call waits for it. -/
inductive CameBack (c : Scheduler) (past : List Moment) (id k : Nat) (response : Json) : Prop where
  | atOnce (v : Serving) (served : (servings past)[id]? = some v)
      (came : Target.CameAtOnce v.transport (v.called c) k response)
  | later (m : Moment) (d : Delivery) (one : m ∈ past)
      (event : m.event = .finish id k (.done response)) (delivery : d ∈ m.state.deliveries)
      (same : d.id = id)
      (waits : d.exchange.slots[k]? = some .waiting)

theorem CameBack.mono {c : Scheduler} {past : List Moment} {id k : Nat} {response : Json}
    (h : c.CameBack past id k response) (more : List Moment) :
    c.CameBack (past ++ more) id k response := by
  cases h with
  | atOnce v served came =>
    refine .atOnce v ?_ came
    rw [servings_append, List.getElem?_append_left (List.getElem?_eq_some_iff.mp served).1]
    exact served
  | later m d one event delivery same waits =>
    exact .later m d (List.mem_append_left _ one) event delivery same waits

end Scheduler

end Coalesce
