import Coalesce.Proofs.Scheduler.History

/-!
# What a step changes

* `Scheduler.ending`       the effects of the end of a batch;
* `Scheduler.Piecewise`    what holds of all that is told at once if it holds of each answer;
* `Scheduler.Ends`         a batch ends in a moment, with some outcome;
* `Scheduler.Change`       all that an event may do; timers are left open;
* `Scheduler.step_change`  a step does just that;
* `Scheduler.History.by_changes`
                           induction over a history, change by change.

Invariants are shown for changes, so that a step is taken apart only here.
-/

namespace Coalesce

/-- the error that a notice tells -/
def Notice.error? : Notice → Option Error
  | .batchFailed _ _ cause => some cause
  | _ => none

namespace Scheduler

def ending (c : Scheduler) (s : State) (members : List Pending) :
    Outcome (List Json) → List Effect
  | .done results => c.deliver s members results
  | .failed cause => c.refuse s members cause
  | .crashed => c.drop s members

/-- the error of those that get no answer -/
def dropped (c : Scheduler) : Error := .runtime (.replyDropped c.target.name)

/-- What holds of effects that follow each other if it holds of each of them, and of all notices. -/
structure Piecewise (P : List Effect → Prop) : Prop where
  nil : P []
  append : ∀ {first second : List Effect}, P first → P second → P (first ++ second)
  noted : ∀ notice, P [.noted notice]

section
variable {P : List Effect → Prop} {s : State}

theorem Piecewise.all (h : Piecewise P) {ps : List Pending}
    (result : Pending → Except Error Json) (each : ∀ p ∈ ps, P (answer s p (result p))) :
    P (ps.flatMap fun p => answer s p (result p)) := by
  induction ps with
  | nil => exact h.nil
  | cons p ps ih =>
    rw [List.flatMap_cons]
    exact h.append (each p List.mem_cons_self) (ih fun q hq => each q (List.mem_cons_of_mem _ hq))

theorem Piecewise.deliver (h : Piecewise P) (c : Scheduler) {ps : List Pending} (rs : List Json)
    (each : ∀ p ∈ ps, ∀ result, P (answer s p result)) : P (c.deliver s ps rs) := by
  induction ps generalizing rs with
  | nil => cases rs <;> exact h.nil
  | cons p ps ih =>
    cases rs with
    | nil => exact h.all (fun _ => .error c.dropped) fun q hq => each q hq _
    | cons r rs =>
      have hp := each p List.mem_cons_self (.ok r)
      exact h.append hp (ih rs fun q hq => each q (List.mem_cons_of_mem _ hq))

/-- What holds of all answers to its members holds of the end of a batch. -/
theorem Piecewise.ending (h : Piecewise P) (c : Scheduler) {members : List Pending}
    (outcome : Outcome (List Json)) (each : ∀ p ∈ members, ∀ result, P (answer s p result)) :
    P (c.ending s members outcome) := by
  cases outcome with
  | done results => exact h.deliver c results each
  | failed cause =>
    have htold := h.all (fun _ => .error cause) fun p hp => each p hp _
    exact h.append (h.noted (.batchFailed c.target.name members.length cause)) htold
  | crashed => exact h.all (fun _ => .error c.dropped) fun p hp => each p hp _

theorem Piecewise.sift (h : Piecewise P) (c : Scheduler) (now : Int) {items : List Pending}
    (each : ∀ p ∈ items, ∀ result, P (answer s p result)) : P (c.sift now s items).2 := by
  induction items with
  | nil => exact h.nil
  | cons p rest ih =>
    have hrest := ih fun q hq => each q (List.mem_cons_of_mem _ hq)
    unfold Scheduler.sift
    dsimp only
    split
    · exact hrest
    · split
      · exact hrest
      · exact h.append (each p List.mem_cons_self _) hrest

end

inductive Ends (c : Scheduler) : Moment → List Pending → Outcome (List Json) → Prop where
  | atOnce (m : Moment) (v : Serving) (outcome : Outcome (List Json))
      (serving : m.serving? = some v) (ended : v.progress c = .ended outcome) :
      Ends c m v.batch outcome
  | later (s : State) (id call : Nat) (came : Outcome Json) (d : Delivery)
      (outcome : Outcome (List Json)) (found : s.deliveries.find? (fun d => d.id = id) = some d)
      (ended : d.exchange.resume c.target.codec call came = .ended outcome) :
      Ends c ⟨s, .finish id call came⟩ d.members outcome

/-- events that concern the window alone -/
def Event.ofWindow : Event → Bool
  | .submit _ | .expire _ | .flush => true
  | _ => false

/-- effects that are neither calls nor answers, and tell no error -/
def Silent (effects : List Effect) : Prop :=
  ∀ e ∈ effects, ∃ notice, e = .noted notice ∧ notice.error? = none

inductive Change (c : Scheduler) (s : State) : Event → State → List Effect → Prop where
  /-- the window stays open -/
  | waits (e : Event) (window : e.ofWindow) (generation : Nat) (timers : List Timer) :
      Change c s e { s with pending := s.pending ++ e.arrivals, generation, timers } []
  /-- the window is flushed -/
  | flushed (e : Event) (window : e.ofWindow) (batches : List (List Pending))
      (working : s.worker = .working batches) (trigger : Trigger) (generation : Nat)
      (timers : List Timer) :
      Change c s e { s with
        pending := [], queue := s.queue ++ [⟨trigger, s.pending ++ e.arrivals⟩],
        generation, timers } []
  /-- the window is flushed, but nobody takes it -/
  | lost (e : Event) (window : e.ofWindow) (gone : s.worker = .gone) (generation : Nat)
      (timers : List Timer) (notice : Notice) (harmless : notice.error? = none) :
      Change c s e { s with pending := [], generation, timers }
        (.noted notice :: c.drop s (s.pending ++ e.arrivals))
  | left (ticket : Nat) : Change c s (.leave ticket) { s with left := ticket :: s.left } []
  /-- the next window is cut into batches -/
  | taken (now : Int) (f : Flush) (queue : List Flush) (working : s.worker = .working [])
      (next : s.queue = f :: queue) (notes : List Effect) (silent : Silent notes) :
      Change c s (.take now)
        { s with queue, worker := .working (c.batches (c.sift now s f.items).1) }
        ((c.sift now s f.items).2 ++ notes)
  /-- there is nothing to do -/
  | idle (e : Event) (served : Moment.serving? ⟨s, e⟩ = none)
      (formed : Moment.formed c ⟨s, e⟩ = []) (arrivals : e.arrivals = [])
      (finished : ∀ id call outcome, e = .finish id call outcome →
        s.deliveries.find? (fun d => d.id = id) = none) : Change c s e s []
  /-- the calls for the next batch are started, and some are waited for -/
  | started (now : Int) (transport : Transport) (members : List Pending)
      (rest : List (List Pending)) (working : s.worker = .working (members :: rest))
      (exchange : Exchange)
      (running : Serving.progress c ⟨now, transport, members⟩ = .running exchange) :
      Change c s (.serve now transport)
        { s with
          worker := .working rest, nextDelivery := s.nextDelivery + 1,
          deliveries := s.deliveries ++ [⟨s.nextDelivery, members, exchange⟩] }
        ((Serving.called c ⟨now, transport, members⟩).map fun call => Effect.called call members)
  /-- the next batch ends at once -/
  | ended (now : Int) (transport : Transport) (members : List Pending)
      (rest : List (List Pending)) (working : s.worker = .working (members :: rest))
      (outcome : Outcome (List Json)) (alive : outcome ≠ .crashed)
      (ends : Serving.progress c ⟨now, transport, members⟩ = .ended outcome) :
      Change c s (.serve now transport)
        { s with worker := .working rest, nextDelivery := s.nextDelivery + 1 }
        (((Serving.called c ⟨now, transport, members⟩).map fun call => Effect.called call members)
          ++ c.ending s members outcome)
  /-- the next batch crashes, and the dispatcher with it -/
  | crashed (now : Int) (transport : Transport) (members : List Pending)
      (rest : List (List Pending)) (working : s.worker = .working (members :: rest))
      (ends : Serving.progress c ⟨now, transport, members⟩ = .ended .crashed) :
      Change c s (.serve now transport)
        { s with worker := .gone, queue := [], nextDelivery := s.nextDelivery + 1 }
        (((Serving.called c ⟨now, transport, members⟩).map fun call => Effect.called call members)
          ++ c.drop s (members ++ rest.flatten ++ s.queue.flatMap Flush.items))
  /-- a call comes back, and its batch waits for more -/
  | resumed (id call : Nat) (outcome : Outcome Json) (d : Delivery)
      (found : s.deliveries.find? (fun d => d.id = id) = some d) (exchange : Exchange)
      (running : d.exchange.resume c.target.codec call outcome = .running exchange) :
      Change c s (.finish id call outcome)
        { s with deliveries := s.deliveries.map fun d =>
            if d.id = id then { d with exchange } else d } []
  /-- a call comes back, and its batch ends -/
  | finished (id call : Nat) (outcome : Outcome Json) (d : Delivery)
      (found : s.deliveries.find? (fun d => d.id = id) = some d)
      (result : Outcome (List Json))
      (ends : d.exchange.resume c.target.codec call outcome = .ended result) :
      Change c s (.finish id call outcome)
        { s with deliveries := s.deliveries.filter fun d => d.id ≠ id }
        (c.ending s d.members result)

/-! ## the operations -/

/-- What comes of a flush of the window and some more requests. -/
theorem close_change (c : Scheduler) (trigger : Trigger) (s : State) (e : Event)
    (window : e.ofWindow) (timers : List Timer) :
    let x := c.close trigger { s with pending := s.pending ++ e.arrivals, timers }
    Change c s e x.1 x.2 := by
  dsimp only
  unfold close
  dsimp only
  split
  · rename_i hempty
    have hnil : s.pending ++ e.arrivals = [] := List.isEmpty_iff.mp hempty
    have hw := Change.waits (c := c) (s := s) e window (s.generation + 1) timers
    rw [hnil] at hw
    exact hw
  · split
    · rename_i batches hworking
      exact .flushed e window batches hworking trigger (s.generation + 1) timers
    · rename_i hgone
      exact .lost e window hgone (s.generation + 1) timers _ rfl

theorem submit_change (c : Scheduler) (p : Pending) (s : State) :
    Change c s (.submit p) (c.submit p s).1 (c.submit p s).2 := by
  unfold submit
  dsimp only
  split
  · exact c.close_change .size s (.submit p) rfl s.timers
  · split
    · exact .waits (.submit p) rfl s.generation _
    · exact .waits (.submit p) rfl s.generation s.timers

theorem expire_change (c : Scheduler) (generation : Nat) (s : State) :
    Change c s (.expire generation) (c.expire generation s).1 (c.expire generation s).2 := by
  have hwaits : ∀ timers, Change c s (.expire generation) { s with timers } [] := by
    intro timers
    have hw := Change.waits (c := c) (s := s) (.expire generation) rfl s.generation timers
    rw [show s.pending ++ Event.arrivals (.expire generation) = s.pending from
      List.append_nil _] at hw
    exact hw
  unfold expire
  split
  · dsimp only
    split
    · have hc := c.close_change .timer s (.expire generation) rfl
        (s.timers.filter fun t => t.generation ≠ generation)
      rw [show s.pending ++ Event.arrivals (.expire generation) = s.pending from
        List.append_nil _] at hc
      exact hc
    · exact hwaits _
  · exact hwaits s.timers

theorem flush_change (c : Scheduler) (s : State) :
    Change c s .flush (c.close .manual s).1 (c.close .manual s).2 := by
  have hc := c.close_change .manual s .flush rfl s.timers
  rw [show s.pending ++ Event.arrivals .flush = s.pending from List.append_nil _] at hc
  exact hc

theorem batches_nil (c : Scheduler) : c.batches [] = [] := by
  unfold batches
  cases c.settings.strategy <;> rfl

theorem take_change (c : Scheduler) (now : Int) (s : State) :
    Change c s (.take now) (c.take now s).1 (c.take now s).2 := by
  unfold take
  split
  · rename_i f queue hworking hqueue
    dsimp only
    split
    · rename_i hempty
      have ht := Change.taken (c := c) (s := s) now f queue hworking hqueue [] fun e he =>
        absurd he List.not_mem_nil
      rw [List.isEmpty_iff.mp hempty, batches_nil, ← hworking, List.append_nil] at ht
      exact ht
    · refine .taken now f queue hworking hqueue [_] fun e he => ?_
      exact ⟨_, List.mem_singleton.mp he, rfl⟩
  · rename_i hno
    refine .idle _ rfl ?_ rfl fun id call outcome h => by cases h
    unfold Moment.formed
    split
    · rename_i hworking hqueue
      exact absurd hqueue (hno _ _ hworking)
    · rfl

/-- answers depend on nothing but who has left -/
theorem deliver_congr (c : Scheduler) {s s' : State} (h : s.left = s'.left) (ps : List Pending)
    (rs : List Json) : c.deliver s ps rs = c.deliver s' ps rs := by
  have hanswer : ∀ p r, answer s p r = answer s' p r := by
    intro p r
    unfold answer
    rw [h]
  induction ps generalizing rs with
  | nil => cases rs <;> simp [deliver, drop]
  | cons p ps ih =>
    cases rs with
    | nil => simp only [deliver, drop, hanswer]
    | cons r rs => rw [deliver, deliver, hanswer, ih]

theorem serve_change (c : Scheduler) (now : Int) (transport : Transport) (s : State) :
    Change c s (.serve now transport) (c.serve now transport s).1 (c.serve now transport s).2 := by
  unfold serve
  split
  · rename_i members rest hworking
    dsimp only
    split
    · rename_i exchange hrunning
      exact .started now transport members rest hworking exchange hrunning
    · rename_i results hdone
      have hsame : c.deliver { s with
          worker := .working rest, nextDelivery := s.nextDelivery + 1 } members results
          = c.deliver s members results := by
        apply c.deliver_congr
        rfl
      rw [hsame]
      exact .ended now transport members rest hworking (.done results) (by simp) hdone
    · rename_i cause hfailed
      exact .ended now transport members rest hworking (.failed cause) (by simp) hfailed
    · rename_i hcrashed
      exact .crashed now transport members rest hworking hcrashed
  · rename_i hno
    refine .idle _ ?_ rfl rfl fun id call outcome h => by cases h
    unfold Moment.serving?
    split
    · rename_i batch rest _ hworking
      exact absurd hworking (hno batch rest)
    · rfl

theorem finish_change (c : Scheduler) (id call : Nat) (outcome : Outcome Json) (s : State) :
    Change c s (.finish id call outcome) (c.finish id call outcome s).1
      (c.finish id call outcome s).2 := by
  unfold finish
  split
  · rename_i hnone
    refine .idle _ rfl rfl rfl fun id' call' outcome' h => ?_
    cases h
    exact hnone
  · rename_i d hfound
    dsimp only
    split
    · rename_i exchange hrunning
      exact .resumed id call outcome d hfound exchange hrunning
    · rename_i results hdone
      exact .finished id call outcome d hfound (.done results) hdone
    · rename_i cause hfailed
      exact .finished id call outcome d hfound (.failed cause) hfailed
    · rename_i hcrashed
      exact .finished id call outcome d hfound .crashed hcrashed

/-- A step is a change. -/
theorem step_change (c : Scheduler) (s : State) (e : Event) :
    Change c s e (c.step s e).1 (c.step s e).2 := by
  cases e with
  | submit p => exact c.submit_change p s
  | leave ticket => exact .left ticket
  | expire generation => exact c.expire_change generation s
  | flush => exact c.flush_change s
  | take now => exact c.take_change now s
  | serve now transport => exact c.serve_change now transport s
  | finish id call outcome => exact c.finish_change id call outcome s

/-- What every change keeps holds along every history. -/
theorem History.by_changes {c : Scheduler}
    {motive : ∀ (past : List Moment) (s : State) (effects : List Effect),
      c.History past s effects → Prop}
    (start : motive [] {} [] .start)
    (next : ∀ (past : List Moment) (s : State) (effects : List Effect) (e : Event) (s' : State)
      (more : List Effect) (h : c.History past s effects)
      (h' : c.History (past ++ [⟨s, e⟩]) s' (effects ++ more)),
      Change c s e s' more → motive past s effects h →
      motive (past ++ [⟨s, e⟩]) s' (effects ++ more) h')
    {past : List Moment} {s : State} {effects : List Effect} (h : c.History past s effects) :
    motive past s effects h := by
  induction h with
  | start => exact start
  | next h e ih => exact next _ _ _ e _ _ h (.next h e) (c.step_change _ e) ih

end Scheduler

end Coalesce
