import Coalesce.Proofs.Clockwork
import Coalesce.Proofs.Scheduler.Frame
import Coalesce.Proofs.Scheduler.Leaving
import Coalesce.Proofs.Scheduler.Window

/-!
# Schedulers on a clock

* `Scheduler.clockwork`   a scheduler whose events happen at readings of a clock;
* `Scheduler.step_queue`, `Scheduler.step_batches`
                          what a step does to the windows that wait, and to the batches;
* `Scheduler.Timed.dispatched`
                          windows are taken and batches are served at the reading of their flush;
* `Scheduler.Timed.open`  no window is open when its timer is overdue;
* `Scheduler.Timed.run_eq`, `Scheduler.Timed.clocked`
                          a run on a clock is a run of its events, and they are at readings of this
                          clock.

The clock does not go on while there is something to dispatch, and it does not run past the timer of
the open window.  Nothing is said about calls: they come back at any reading, or never.
-/

namespace Coalesce

namespace Scheduler

/-! ## runs on a clock -/

/-- Nothing is left to dispatch. -/
def State.Rests (s : State) : Prop := s.queue = [] ∧ s.worker.batches = []

/-- The timer of the open window is not overdue. -/
def State.Awaits (s : State) (t : Nat) : Prop :=
  ∀ timer ∈ s.timers, timer.generation = s.generation → t ≤ timer.due

/-- An event may happen at a reading of the clock, which `wall` tells the time of day. -/
def Event.Fits (wall : Nat → Int) (t : Nat) (s : State) : Event → Prop
  | .submit p => p.arrived = t
  | .expire generation => ∀ timer ∈ s.timers, timer.generation = generation → timer.due ≤ t
  | .take now | .serve now _ => now = wall t
  | _ => True

/-- A scheduler on a clock. -/
def clockwork (c : Scheduler) (wall : Nat → Int) : Clockwork State Event Moment where
  start := {}
  step s e := (c.step s e).1
  moment := Moment.mk
  fits t s e := e.Fits wall t s
  waits t s := s.Rests ∧ s.Awaits t

/-- What happened up to a reading of the clock, and where that led. -/
abbrev Timed (c : Scheduler) (wall : Nat → Int) : List (Nat × Moment) → Nat → State → Prop :=
  (c.clockwork wall).Run

section
variable {c : Scheduler} {wall : Nat → Int} {past : List (Nat × Moment)} {t : Nat} {s : State}

theorem Timed.around {first rest : List (Nat × Moment)} {u : Nat} {m : Moment}
    (h : c.Timed wall (first ++ (u, m) :: rest) t s) :
    c.Timed wall first u m.state ∧ m.event.Fits wall u m.state := by
  obtain ⟨s', e, rfl, hrun, hfits⟩ := h.split
  exact ⟨hrun, hfits⟩

/-- The dispatcher rests when the clock goes on. -/
theorem Timed.rests (h : c.Timed wall past t s) (ended : ∀ x ∈ past, x.1 < t) : s.Rests := by
  rcases h.waits_or_start ended with rfl | hwaits
  · exact ⟨rfl, rfl⟩
  · exact hwaits.1

end

/-! ## dispatching -/

/-- the window that is taken -/
def Moment.taking? (m : Moment) : Option Flush :=
  match m.event, m.state.worker, m.state.queue with
  | .take _, .working [], f :: _ => some f
  | _, _, _ => none

theorem taking?_eq_some {m : Moment} {f : Flush} (h : m.taking? = some f) :
    ∃ now, Takes m now f := by
  unfold Moment.taking? at h
  split at h
  · rename_i now g queue hevent hworking hnext
    cases h
    exact ⟨now, hevent, hworking, queue, hnext⟩
  · cases h

theorem Takes.taking {m : Moment} {now : Int} {f : Flush} (takes : Takes m now f) :
    m.taking? = some f := by
  obtain ⟨hevent, hworking, queue, hnext⟩ := takes
  unfold Moment.taking?
  rw [hevent, hworking, hnext]

/-- A window is taken at the time of day that the reading tells. -/
theorem Takes.on_clock {m : Moment} {now : Int} {f : Flush} (takes : Takes m now f)
    {wall : Nat → Int} {t : Nat} (fits : m.event.Fits wall t m.state) : now = wall t := by
  rw [takes.event] at fits
  exact fits

/-- the windows that are closed with something in them, none or one -/
def Moment.flushed (c : Scheduler) (m : Moment) : List Flush :=
  (m.closing? c).toList.filter Flush.filled

theorem close_queue (c : Scheduler) (trigger : Trigger) {s : State} {batches : List (List Pending)}
    (working : s.worker = .working batches) :
    (c.close trigger s).1.queue
        = s.queue ++ [(⟨trigger, s.pending⟩ : Flush)].filter Flush.filled ∧
      (c.close trigger s).1.worker = .working batches := by
  by_cases hempty : s.pending = []
  · rw [c.close_empty trigger hempty, hempty]
    exact ⟨(List.append_nil _).symm, working⟩
  · have hfilled : Flush.filled ⟨trigger, s.pending⟩ = true := by simp [Flush.filled, hempty]
    rw [c.close_working trigger hempty working, List.filter_cons_of_pos hfilled]
    exact ⟨rfl, working⟩

/-- What was waiting, and what a step adds to it and takes from it: first windows, then batches. -/
structure Dispatches (c : Scheduler) (m : Moment) (batches : List (List Pending)) (s' : State) :
    Prop where
  queue : m.state.queue ++ m.flushed c = m.taking?.toList ++ s'.queue
  working : ∃ batches', s'.worker = .working batches' ∧
    batches ++ m.formed c = m.serving?.toList.map (·.batch) ++ batches'

section
variable {c : Scheduler} {s : State} {batches : List (List Pending)}
  (working : s.worker = .working batches)
include working

/-- what leaves the worker alone -/
theorem dispatches_quiet {e : Event} {s' : State} (serving : Moment.serving? ⟨s, e⟩ = none)
    (formed : Moment.formed c ⟨s, e⟩ = []) (worker : s'.worker = s.worker)
    (queue : s.queue ++ Moment.flushed c ⟨s, e⟩ = (Moment.taking? ⟨s, e⟩).toList ++ s'.queue) :
    Dispatches c ⟨s, e⟩ batches s' := by
  refine ⟨queue, batches, worker.trans working, ?_⟩
  rw [serving, formed, List.append_nil]
  rfl

theorem submit_dispatches (p : Pending) :
    Dispatches c ⟨s, .submit p⟩ batches (c.submit p s).1 := by
  have hflushed : Moment.flushed c ⟨s, .submit p⟩
      = (if c.settings.waitQueries ≤ (s.pending ++ [p]).length then
          some (⟨.size, s.pending ++ [p]⟩ : Flush) else none).toList.filter Flush.filled := rfl
  rw [submit_eq]
  by_cases hfull : c.settings.waitQueries ≤ (s.pending ++ [p]).length
  · rw [if_pos hfull] at hflushed ⊢
    obtain ⟨hqueue, hworker⟩ :=
      c.close_queue .size (s := { s with pending := s.pending ++ [p] }) working
    refine dispatches_quiet working rfl rfl (hworker.trans working.symm) ?_
    rw [hqueue, hflushed]
    rfl
  · rw [if_neg hfull] at hflushed ⊢
    have hquiet : s.queue ++ Moment.flushed c ⟨s, .submit p⟩ = s.queue := by
      rw [hflushed]
      exact List.append_nil _
    split
    · exact dispatches_quiet working rfl rfl rfl hquiet
    · exact dispatches_quiet working rfl rfl rfl hquiet

theorem expire_dispatches (generation : Nat) :
    Dispatches c ⟨s, .expire generation⟩ batches (c.expire generation s).1 := by
  have hflushed : Moment.flushed c ⟨s, .expire generation⟩
      = (if (s.timers.any fun t => t.generation = generation) ∧ generation = s.generation then
          some (⟨.timer, s.pending⟩ : Flush) else none).toList.filter Flush.filled := rfl
  by_cases hfires : (s.timers.any fun t => t.generation = generation) ∧ generation = s.generation
  · rw [expire_eq, if_pos hfires.1, if_pos hfires.2]
    rw [if_pos hfires] at hflushed
    obtain ⟨hqueue, hworker⟩ := c.close_queue .timer
      (s := { s with timers := s.timers.filter fun t => t.generation ≠ generation }) working
    refine dispatches_quiet working rfl rfl (hworker.trans working.symm) ?_
    rw [hqueue, hflushed]
    rfl
  · rw [if_neg hfires] at hflushed
    have hquiet : s.queue ++ Moment.flushed c ⟨s, .expire generation⟩ = s.queue := by
      rw [hflushed]
      exact List.append_nil _
    rw [expire_eq]
    split
    · rename_i hany
      rw [if_neg fun hcurrent => hfires ⟨hany, hcurrent⟩]
      exact dispatches_quiet working rfl rfl rfl hquiet
    · exact dispatches_quiet working rfl rfl rfl hquiet

theorem flush_dispatches : Dispatches c ⟨s, .flush⟩ batches (c.close .manual s).1 := by
  obtain ⟨hqueue, hworker⟩ := c.close_queue .manual working
  exact dispatches_quiet working rfl rfl (hworker.trans working.symm) hqueue.symm

theorem take_dispatches (now : Int) : Dispatches c ⟨s, .take now⟩ batches (c.take now s).1 := by
  have hflushed : Moment.flushed c ⟨s, .take now⟩ = [] := rfl
  rcases next_or_idle s with ⟨f, queue, hworking, hnext⟩ | hidle
  · have hnone : batches = [] := Worker.working.inj (working.symm.trans hworking)
    have htaking : Moment.taking? ⟨s, .take now⟩ = some f := by
      unfold Moment.taking?
      dsimp only
      rw [hworking, hnext]
    have hformed : Moment.formed c ⟨s, .take now⟩ = c.batches (c.sift now s f.items).1 := by
      unfold Moment.formed
      dsimp only
      rw [hworking, hnext]
    rw [c.take_next now hworking hnext]
    have hqueue : s.queue ++ Moment.flushed c ⟨s, .take now⟩
        = (Moment.taking? ⟨s, .take now⟩).toList ++ queue := by
      rw [hflushed, htaking, hnext, List.append_nil]
      rfl
    split
    · rename_i hempty
      rw [List.isEmpty_iff.mp hempty, batches_nil] at hformed
      exact dispatches_quiet working rfl hformed rfl hqueue
    · refine ⟨hqueue, _, rfl, ?_⟩
      rw [hnone, hformed]
      rfl
  · have htaking : Moment.taking? ⟨s, .take now⟩ = none := by
      unfold Moment.taking?
      split
      · rename_i hworking hnext
        exact absurd hnext (hidle _ _ hworking)
      · rfl
    have hformed : Moment.formed c ⟨s, .take now⟩ = [] := by
      unfold Moment.formed
      split
      · rename_i hworking hnext
        exact absurd hnext (hidle _ _ hworking)
      · rfl
    rw [c.take_idle now hidle]
    refine dispatches_quiet working rfl hformed rfl ?_
    rw [hflushed, htaking, List.append_nil]
    rfl

theorem serve_dispatches (now : Int) (transport : Transport)
    (calm : ∀ v, Moment.serving? ⟨s, .serve now transport⟩ = some v →
      v.progress c ≠ .ended .crashed) :
    Dispatches c ⟨s, .serve now transport⟩ batches (c.serve now transport s).1 := by
  have hqueue : s.queue ++ Moment.flushed c ⟨s, .serve now transport⟩
      = (Moment.taking? ⟨s, .serve now transport⟩).toList ++ s.queue := List.append_nil _
  cases batches with
  | nil =>
    have hnone : Moment.serving? ⟨s, .serve now transport⟩ = none := by
      unfold Moment.serving?
      dsimp only
      rw [working]
    rw [c.serve_idle now transport hnone]
    exact dispatches_quiet working hnone rfl rfl hqueue
  | cons batch rest =>
    have hserving := serving?_serve now transport working
    let v : Serving := ⟨now, transport, batch⟩
    have serves : (c.serve v.now v.transport s).1.queue = s.queue →
        (c.serve v.now v.transport s).1.worker = .working rest →
        Dispatches c ⟨s, .serve now transport⟩ (batch :: rest) (c.serve now transport s).1 := by
      intro hsame hworker
      refine ⟨hqueue.trans (congrArg _ hsame.symm), rest, hworker, ?_⟩
      rw [hserving]
      exact List.append_nil _
    cases hprogress : v.progress c with
    | running exchange =>
      have hserve := c.serve_running (v := v) working hprogress
      exact serves (by rw [hserve]) (by rw [hserve])
    | ended outcome =>
      have halive : outcome ≠ .crashed := fun hcrashed =>
        calm v hserving (hcrashed ▸ hprogress)
      have hserve := c.serve_ended (v := v) working halive hprogress
      exact serves (by rw [hserve]) (by rw [hserve])

theorem finish_dispatches (id call : Nat) (outcome : Outcome Json) :
    Dispatches c ⟨s, .finish id call outcome⟩ batches (c.finish id call outcome s).1 := by
  have hqueue : s.queue ++ Moment.flushed c ⟨s, .finish id call outcome⟩
      = (Moment.taking? ⟨s, .finish id call outcome⟩).toList ++ s.queue := List.append_nil _
  rcases c.finish_cases id call outcome s with ⟨_, hs⟩ | ⟨d, _, hs⟩
  · rw [hs]
    exact dispatches_quiet working rfl rfl rfl hqueue
  · rw [hs]
    split
    · exact dispatches_quiet working rfl rfl rfl hqueue
    · exact dispatches_quiet working rfl rfl rfl hqueue

/-- Unless a batch crashes on starting, a dispatcher that is there stays, whatever comes back. -/
theorem step_dispatches (e : Event)
    (calm : ∀ v, Moment.serving? ⟨s, e⟩ = some v → v.progress c ≠ .ended .crashed) :
    Dispatches c ⟨s, e⟩ batches (c.step s e).1 := by
  cases e with
  | submit p => exact submit_dispatches working p
  | leave ticket => exact dispatches_quiet working rfl rfl rfl (List.append_nil _)
  | expire generation => exact expire_dispatches working generation
  | flush => exact flush_dispatches working
  | take now => exact take_dispatches working now
  | serve now transport => exact serve_dispatches working now transport calm
  | finish id call outcome => exact finish_dispatches working id call outcome

end

/-! ## at which reading -/

/-- the windows that were flushed -/
def flushesAt (c : Scheduler) (past : List (Nat × Moment)) : List (Nat × Flush) :=
  stampedAll (Moment.flushed c) past

/-- the windows that were taken -/
def takenAt (past : List (Nat × Moment)) : List (Nat × Flush) :=
  stamped Moment.taking? past

/-- the batches that were formed -/
def formedAt (c : Scheduler) (past : List (Nat × Moment)) : List (Nat × List Pending) :=
  stampedAll (Moment.formed c) past

/-- the batches that were served -/
def servedAt (past : List (Nat × Moment)) : List (Nat × List Pending) :=
  stamped (fun m => m.serving?.map (·.batch)) past

/-- No batch crashes on starting. -/
def Calm (c : Scheduler) (past : List (Nat × Moment)) : Prop :=
  ∀ x ∈ past, ∀ v, x.2.serving? = some v → v.progress c ≠ .ended .crashed

/-- What waits to be dispatched was flushed, or formed, at this reading. -/
structure Prompt (c : Scheduler) (past : List (Nat × Moment)) (t : Nat) (s : State) : Prop where
  queue : c.flushesAt past = takenAt past ++ s.queue.map (t, ·)
  working : ∃ batches, s.worker = .working batches ∧
    c.formedAt past = servedAt past ++ batches.map (t, ·)

theorem Prompt.next {c : Scheduler} {past : List (Nat × Moment)} {t : Nat} {m : Moment} {s' : State}
    (h : Prompt c past t m.state) {batches : List (List Pending)}
    (working : m.state.worker = .working batches) (d : Dispatches c m batches s') :
    Prompt c (past ++ [(t, m)]) t s' where
  queue := by
    have htaken : takenAt (past ++ [(t, m)]) = takenAt past ++ m.taking?.toList.map (t, ·) :=
      stamped_snoc _ past t m
    rw [htaken, List.append_assoc, ← List.map_append, ← d.queue, List.map_append,
      ← List.append_assoc, ← h.queue]
    exact stampedAll_snoc _ past t m
  working := by
    obtain ⟨old, hold, hformed⟩ := h.working
    obtain rfl : old = batches := Worker.working.inj (hold.symm.trans working)
    obtain ⟨batches', hworking, hsame⟩ := d.working
    refine ⟨batches', hworking, ?_⟩
    have hserved : servedAt (past ++ [(t, m)])
        = servedAt past ++ (m.serving?.toList.map (·.batch)).map (t, ·) := by
      rw [← Option.toList_map]
      exact stamped_snoc _ past t m
    rw [hserved, List.append_assoc, ← List.map_append, ← hsame, List.map_append,
      ← List.append_assoc, ← hformed]
    exact stampedAll_snoc _ past t m

section
variable {c : Scheduler} {wall : Nat → Int} {past : List (Nat × Moment)} {t : Nat} {s : State}

/-- Windows are taken and batches are served at the reading of their flush, in order. -/
theorem Timed.dispatched (h : c.Timed wall past t s) (calm : c.Calm past) : Prompt c past t s := by
  induction h with
  | start => exact ⟨rfl, [], rfl, rfl⟩
  | next h e fits ih =>
    have hold := ih fun x hx => calm x (List.mem_append_left _ hx)
    obtain ⟨batches, hworking, _⟩ := hold.working
    exact hold.next hworking (step_dispatches hworking e
      (calm _ (List.mem_append_right _ (List.mem_singleton_self _))))
  | tick h t' later waits ih =>
    obtain ⟨hqueue, batches, hworking, hformed⟩ := ih calm
    obtain ⟨⟨hnone, hidle⟩, _⟩ := waits
    rw [hworking] at hidle
    have hidle : batches = [] := hidle
    rw [hnone] at hqueue
    rw [hidle] at hformed hworking
    refine ⟨?_, [], hworking, hformed⟩
    rw [hnone]
    exact hqueue

/-- When the dispatcher rests, every window that was flushed was taken at this reading, and every
batch that was formed was served at this reading. -/
theorem Timed.at_rest (h : c.Timed wall past t s) (calm : c.Calm past) (rests : s.Rests) :
    takenAt past = c.flushesAt past ∧ servedAt past = c.formedAt past := by
  obtain ⟨hqueue, batches, hworking, hformed⟩ := h.dispatched calm
  obtain ⟨hnone, hidle⟩ := rests
  rw [hworking] at hidle
  have hidle : batches = [] := hidle
  rw [hqueue, hformed, hnone, hidle]
  exact ⟨(List.append_nil _).symm, (List.append_nil _).symm⟩

/-- The timer of the window is armed, and the window is not open when it is overdue. -/
theorem Timed.open (h : c.Timed wall past t s) : c.Armed s ∧
    ∀ first, s.pending.head? = some first → t ≤ first.arrived + c.settings.waitMillis := by
  induction h with
  | start => exact ⟨c.armed_start, fun first hfirst => by cases hfirst⟩
  | @next past t s h e fits ih =>
    obtain ⟨harmed, hopen⟩ := ih
    have hshift := c.step_shift s e
    refine ⟨harmed.shift hshift, fun first hfirst => ?_⟩
    change (c.step s e).1.pending.head? = some first at hfirst
    cases hshift with
    | closes f closing items pending =>
      rw [pending] at hfirst
      cases hfirst
    | opens p arrives closing empty room pending =>
      -- the first request came in just now
      rw [pending] at hfirst
      cases hfirst
      have harrived : first.arrived = t := by
        cases e with
        | submit q =>
          cases arrives
          exact fits
        | _ => cases arrives
      omega
    | stays closing opened pending =>
      refine hopen first ?_
      rw [pending] at hfirst
      cases hp : s.pending with
      | nil =>
        rw [hp, opened hp] at hfirst
        cases hfirst
      | cons q rest =>
        rw [hp] at hfirst
        exact hfirst
  | tick h t' later waits ih =>
    obtain ⟨harmed, hopen⟩ := ih
    exact ⟨harmed, fun first hfirst => waits.2 _ (harmed.armed first hfirst) rfl⟩

theorem Timed.awaits (h : c.Timed wall past t s) : s.Awaits t := by
  intro timer ht hcurrent
  obtain ⟨harmed, hopen⟩ := h.open
  obtain ⟨first, hfirst, hdue⟩ := harmed.current timer ht hcurrent
  rw [hdue]
  exact hopen first hfirst

/-! ## the readings of events -/

theorem Timed.run_eq (h : c.Timed wall past t s) :
    (c.run {} (past.map fun x => x.2.event)).1 = s := by
  induction h with
  | start => rfl
  | @next past t s h e fits ih =>
    rw [List.map_append, run_append, ih]
    rfl
  | tick h t' later waits ih => exact ih

/-- What came before an event is a run, and the event is at its reading. -/
theorem Timed.before (h : c.Timed wall past t s) {i u : Nat} {m : Moment}
    (hi : past[i]? = some (u, m)) :
    c.Timed wall (past.take i) u m.state ∧ m.event.Fits wall u m.state := by
  obtain ⟨hlt, hget⟩ := List.getElem?_eq_some_iff.mp hi
  have hsplit : past = past.take i ++ (u, m) :: past.drop (i + 1) := by
    rw [← hget, ← List.drop_eq_getElem_cons hlt, List.take_append_drop]
  rw [hsplit] at h
  exact h.around

/-- What happened on a clock is at its readings, the last one being that of the end. -/
theorem Timed.clocked (h : c.Timed wall past t s) :
    c.Clocked (fun i => (past[i]?.map (·.1)).getD t) (past.map fun x => x.2.event) where
  arrives i p hp := by
    rw [List.getElem?_map] at hp
    obtain ⟨⟨u, m⟩, hi, hevent⟩ := Option.map_eq_some_iff.mp hp
    obtain ⟨_, hfits⟩ := h.before hi
    dsimp only at hevent
    rw [hevent] at hfits
    rw [hi]
    exact hfits
  fires i _ := by
    rw [← List.map_take]
    cases hi : past[i]? with
    | none =>
      rw [List.take_of_length_le (List.getElem?_eq_none_iff.mp hi), h.run_eq]
      exact h.awaits
    | some x =>
      obtain ⟨hrun, _⟩ := h.before hi
      rw [hrun.run_eq]
      exact hrun.awaits

end

end Scheduler

end Coalesce
