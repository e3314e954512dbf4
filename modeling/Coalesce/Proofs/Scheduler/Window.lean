import Coalesce.Proofs.Scheduler.Frame
import Coalesce.Proofs.Scheduler.Once

/-!
# The open window and its timer

* `Scheduler.closings`, `Scheduler.flushes`
                             the windows that were closed, in order; those that held something;
* `Scheduler.closing_close`, `Scheduler.handover`
                             the steps that close a window, and where it goes;
* `Scheduler.Shift`          what a step does to the window: it closes, it opens, or it stays;
* `Scheduler.Armed`          the timer of the window is the only one of its count;
* `Scheduler.Ticking`        the window has room, and it is open for as long as its timer allows;
* `Scheduler.Clocked`        readings of a clock that does not run past the timer of the window;
* `Scheduler.window_on_time` all this holds in every run.

A timer is told by the count of closings at its start.  It may fire late, or after it was given up;
then the count has moved on, also when the window was closed with nothing in it.
-/

namespace Coalesce

def Flush.filled (f : Flush) : Bool := !f.items.isEmpty

namespace Scheduler

/-! ## closing -/

/-- the window that is closed, be it empty -/
def Moment.closing? (c : Scheduler) (m : Moment) : Option Flush :=
  match m.event with
  | .submit p =>
    if c.settings.waitQueries ≤ (m.state.pending ++ [p]).length then
      some ⟨.size, m.state.pending ++ [p]⟩
    else none
  | .expire generation =>
    if (m.state.timers.any fun t => t.generation = generation) ∧ generation = m.state.generation then
      some ⟨.timer, m.state.pending⟩
    else none
  | .flush => some ⟨.manual, m.state.pending⟩
  | _ => none

def closings (c : Scheduler) (past : List Moment) : List Flush :=
  past.filterMap (Moment.closing? c)

def flushes (c : Scheduler) (past : List Moment) : List Flush := (c.closings past).filter Flush.filled

theorem closings_snoc (c : Scheduler) (past : List Moment) (m : Moment) :
    c.closings (past ++ [m]) = c.closings past ++ (m.closing? c).toList := by
  unfold closings
  rw [List.filterMap_append]
  cases h : m.closing? c with
  | none => simp [h]
  | some f => simp [h]

theorem flushes_snoc (c : Scheduler) (past : List Moment) (m : Moment) :
    c.flushes (past ++ [m]) = c.flushes past ++ (m.closing? c).toList.filter Flush.filled := by
  unfold flushes
  rw [closings_snoc, List.filter_append]

/-- An empty window adds nothing to what was flushed. -/
theorem flatMap_filled (fs : List Flush) :
    (fs.filter Flush.filled).flatMap Flush.items = fs.flatMap Flush.items := by
  induction fs with
  | nil => rfl
  | cons f fs ih =>
    rw [List.filter_cons, List.flatMap_cons]
    by_cases h : f.filled = true
    · rw [if_pos h, List.flatMap_cons, ih]
    · have hnil : f.items = [] := by simpa [Flush.filled] using h
      rw [if_neg h, ih, hnil, List.nil_append]

/-- What a flush leaves of the window, and of the queue. -/
theorem close_window (c : Scheduler) (trigger : Trigger) (s : State) :
    let s' := (c.close trigger s).1
    s'.pending = [] ∧ s'.generation = s.generation + 1 ∧ s'.timers = s.timers ∧
      s'.queue.Sublist (s.queue ++ [(⟨trigger, s.pending⟩ : Flush)].filter Flush.filled) := by
  unfold close
  dsimp only
  split
  · exact ⟨rfl, rfl, rfl, List.sublist_append_left _ _⟩
  · rename_i hne
    have hfilled : Flush.filled ⟨trigger, s.pending⟩ = true := by simpa [Flush.filled] using hne
    split
    · refine ⟨rfl, rfl, rfl, ?_⟩
      rw [List.filter_cons, if_pos hfilled, List.filter_nil]
    · exact ⟨rfl, rfl, rfl, List.sublist_append_left _ _⟩

/-- A step that closes a window is a flush of what this holds. -/
theorem closing_close (c : Scheduler) {s : State} {e : Event} {f : Flush}
    (closing : Moment.closing? c ⟨s, e⟩ = some f) :
    ∃ s₀ : State, c.step s e = c.close f.trigger s₀ ∧ s₀.pending = f.items ∧
      s₀.worker = s.worker ∧ s₀.queue = s.queue ∧ s₀.left = s.left := by
  cases e with
  | submit p =>
    by_cases hfull : c.settings.waitQueries ≤ (s.pending ++ [p]).length
    · rw [← Option.some.inj ((if_pos hfull).symm.trans closing)]
      exact ⟨_, (c.submit_eq p s).trans (if_pos hfull), rfl, rfl, rfl, rfl⟩
    · cases (if_neg hfull).symm.trans closing
  | expire generation =>
    by_cases hfires : (s.timers.any fun t => t.generation = generation) ∧ generation = s.generation
    · rw [← Option.some.inj ((if_pos hfires).symm.trans closing)]
      have hstep := (c.expire_eq generation s).trans (if_pos hfires.1)
      exact ⟨_, hstep.trans (if_pos hfires.2), rfl, rfl, rfl, rfl⟩
    · cases (if_neg hfires).symm.trans closing
  | flush =>
    rw [← Option.some.inj closing]
    exact ⟨s, rfl, rfl, rfl, rfl, rfl⟩
  | _ => cases closing

/-- A window that holds something goes to the dispatcher; if that is gone, its callers are told. -/
theorem handover (c : Scheduler) {s : State} {e : Event} {f : Flush}
    (closing : Moment.closing? c ⟨s, e⟩ = some f) (filled : f.filled) :
    match s.worker with
    | .working _ => (c.step s e).1.queue = s.queue ++ [f] ∧ (c.step s e).2 = []
    | .gone => (c.step s e).1.queue = s.queue ∧ (c.step s e).2
        = .noted (.windowLost c.target.name f.items.length) :: c.drop s f.items := by
  obtain ⟨s₀, hstep, hitems, hworker, hqueue, hleft⟩ := c.closing_close closing
  have hne : s₀.pending ≠ [] := by
    rw [hitems]
    simpa [Flush.filled] using filled
  have hdrop : c.drop s₀ f.items = c.drop s f.items := by
    unfold drop answer
    rw [hleft]
  rw [hstep]
  cases hw : s.worker with
  | working batches =>
    rw [c.close_working f.trigger hne (hworker.trans hw), hitems, hqueue]
    exact ⟨rfl, rfl⟩
  | gone =>
    rw [c.close_gone f.trigger hne (hworker.trans hw), hitems, hdrop]
    exact ⟨hqueue, rfl⟩

/-- A timer that is not the window's changes nothing but that it has fired. -/
theorem expire_stale (c : Scheduler) (s : State) {generation : Nat}
    (stale : generation ≠ s.generation) :
    c.step s (.expire generation)
      = ({ s with timers := s.timers.filter fun t => t.generation ≠ generation }, []) := by
  show c.expire generation s = _
  unfold expire
  split
  · dsimp only
    rw [if_neg stale]
  · rename_i hnone
    have hall : (s.timers.filter fun t => t.generation ≠ generation) = s.timers := by
      refine List.filter_eq_self.mpr fun t ht => decide_eq_true fun heq => hnone ?_
      exact List.any_eq_true.mpr ⟨t, ht, decide_eq_true heq⟩
    rw [hall]

/-! ## one step -/

inductive Shift (c : Scheduler) (s : State) (e : Event) (s' : State) : Prop where
  /-- the window is closed with all that came in -/
  | closes (f : Flush) (closing : Moment.closing? c ⟨s, e⟩ = some f)
      (items : f.items = s.pending ++ e.arrivals) (pending : s'.pending = [])
      (generation : s'.generation = s.generation + 1) (timers : s'.timers.Sublist s.timers)
      (queue : s'.queue.Sublist (s.queue ++ [f].filter Flush.filled))
  /-- the first request of a window starts its timer -/
  | opens (p : Pending) (arrives : e.arrivals = [p]) (closing : Moment.closing? c ⟨s, e⟩ = none)
      (empty : s.pending = []) (room : 1 < c.settings.waitQueries) (pending : s'.pending = [p])
      (generation : s'.generation = s.generation)
      (timers : s'.timers = s.timers ++ [⟨s.generation, p.arrived + c.settings.waitMillis⟩])
      (queue : s'.queue = s.queue)
  /-- the window stays as it is, or takes one more -/
  | stays (closing : Moment.closing? c ⟨s, e⟩ = none) (opened : s.pending = [] → e.arrivals = [])
      (pending : s'.pending = s.pending ++ e.arrivals)
      (room : s.pending.length < c.settings.waitQueries →
        s'.pending.length < c.settings.waitQueries)
      (generation : s'.generation = s.generation) (timers : s'.timers.Sublist s.timers)
      (kept : ∀ t ∈ s.timers, t.generation = s.generation → t ∈ s'.timers)
      (queue : s'.queue.Sublist s.queue)

/-- what leaves the window alone -/
theorem Shift.quiet {c : Scheduler} {s s' : State} {e : Event}
    (closing : Moment.closing? c ⟨s, e⟩ = none) (arrives : e.arrivals = [])
    (pending : s'.pending = s.pending) (generation : s'.generation = s.generation)
    (timers : s'.timers = s.timers) (queue : s'.queue.Sublist s.queue) : Shift c s e s' := by
  have hpending : s'.pending = s.pending ++ e.arrivals := by rw [pending, arrives, List.append_nil]
  refine .stays closing (fun _ => arrives) hpending (fun hroom => ?_) generation ?_ ?_ queue
  · rw [pending]
    exact hroom
  · rw [timers]
  · intro t ht _
    rw [timers]
    exact ht

theorem submit_shift (c : Scheduler) (s : State) (p : Pending) :
    Shift c s (.submit p) (c.submit p s).1 := by
  unfold submit
  dsimp only
  split
  · rename_i hfull
    obtain ⟨hpending, hgeneration, htimers, hqueue⟩ :=
      c.close_window .size { s with pending := s.pending ++ [p] }
    refine .closes ⟨.size, s.pending ++ [p]⟩ (if_pos hfull) rfl hpending hgeneration ?_ hqueue
    rw [htimers]
  · rename_i hroom
    have hlt : (s.pending ++ [p]).length < c.settings.waitQueries := Nat.lt_of_not_le hroom
    split
    · rename_i hone
      have hempty : s.pending = [] := by
        rw [List.length_append, List.length_singleton] at hone
        exact List.length_eq_zero_iff.mp (by omega)
      refine .opens p rfl (if_neg hroom) hempty (by omega) ?_ rfl rfl rfl
      show s.pending ++ [p] = [p]
      rw [hempty, List.nil_append]
    · rename_i hmany
      refine .stays (if_neg hroom) (fun hnil => ?_) rfl (fun _ => hlt) rfl (List.Sublist.refl _)
        (fun t ht _ => ht) (List.Sublist.refl _)
      rw [hnil] at hmany
      exact absurd rfl hmany

theorem expire_shift (c : Scheduler) (s : State) (generation : Nat) :
    Shift c s (.expire generation) (c.expire generation s).1 := by
  by_cases hcurrent : generation = s.generation
  · unfold expire
    split
    · rename_i hany
      dsimp only
      rw [if_pos hcurrent]
      obtain ⟨hpending, hgeneration, htimers, hqueue⟩ := c.close_window .timer
        { s with timers := s.timers.filter fun t => t.generation ≠ generation }
      refine .closes ⟨.timer, s.pending⟩ (if_pos ⟨hany, hcurrent⟩) (List.append_nil _).symm
        hpending hgeneration ?_ hqueue
      rw [htimers]
      exact List.filter_sublist
    · rename_i hnone
      exact .quiet (if_neg fun h => hnone h.1) rfl rfl rfl rfl (List.Sublist.refl _)
  · have hstale : c.expire generation s = _ := c.expire_stale s hcurrent
    rw [hstale]
    refine .stays (if_neg fun h => hcurrent h.2) (fun _ => rfl) (List.append_nil _).symm id rfl
      List.filter_sublist (fun t ht hgeneration => ?_) (List.Sublist.refl _)
    refine List.mem_filter.mpr ⟨ht, decide_eq_true fun heq => hcurrent ?_⟩
    rw [← heq, hgeneration]

theorem flush_shift (c : Scheduler) (s : State) : Shift c s .flush (c.close .manual s).1 := by
  obtain ⟨hpending, hgeneration, htimers, hqueue⟩ := c.close_window .manual s
  refine .closes ⟨.manual, s.pending⟩ rfl (List.append_nil _).symm hpending hgeneration ?_ hqueue
  rw [htimers]

/-- all other events leave the window alone -/
theorem Change.leaves_window {c : Scheduler} {s s' : State} {e : Event} {more : List Effect}
    (h : Change c s e s' more) (other : ¬ e.ofWindow) :
    s'.pending = s.pending ∧ s'.generation = s.generation ∧ s'.timers = s.timers ∧
      s'.queue.Sublist s.queue := by
  cases h with
  | waits _ window => exact absurd window other
  | flushed _ window => exact absurd window other
  | lost _ window => exact absurd window other
  | taken _ f queue working next =>
    refine ⟨rfl, rfl, rfl, ?_⟩
    rw [next]
    exact List.sublist_cons_self f queue
  | crashed => exact ⟨rfl, rfl, rfl, List.nil_sublist _⟩
  | _ => exact ⟨rfl, rfl, rfl, List.Sublist.refl _⟩

theorem step_shift (c : Scheduler) (s : State) (e : Event) : Shift c s e (c.step s e).1 := by
  have other : ¬ e.ofWindow → Moment.closing? c ⟨s, e⟩ = none → e.arrivals = [] →
      Shift c s e (c.step s e).1 := by
    intro hother hclosing harrives
    obtain ⟨hpending, hgeneration, htimers, hqueue⟩ := (c.step_change s e).leaves_window hother
    exact .quiet hclosing harrives hpending hgeneration htimers hqueue
  cases e with
  | submit p => exact c.submit_shift s p
  | expire generation => exact c.expire_shift s generation
  | flush => exact c.flush_shift s
  | leave ticket => exact other Bool.false_ne_true rfl rfl
  | take now => exact other Bool.false_ne_true rfl rfl
  | serve now transport => exact other Bool.false_ne_true rfl rfl
  | finish id call outcome => exact other Bool.false_ne_true rfl rfl

theorem expire_fired (c : Scheduler) (s : State) (generation : Nat) :
    ∀ t ∈ (c.expire generation s).1.timers, t.generation ≠ generation := by
  intro t ht
  rw [expire_eq] at ht
  split at ht
  · have hfilter : t ∈ s.timers.filter fun t => t.generation ≠ generation := by
      split at ht
      · rwa [(c.close_window .timer _).2.2.1] at ht
      · exact ht
    exact of_decide_eq_true (List.mem_filter.mp hfilter).2
  · rename_i hnone
    exact fun heq => hnone (List.any_eq_true.mpr ⟨t, ht, decide_eq_true heq⟩)

/-- Only requests that come in start timers, and those that fired are gone. -/
theorem step_timers (c : Scheduler) (s : State) {e : Event} (arrives : e.arrivals = []) :
    ∀ t ∈ (c.step s e).1.timers, t ∈ s.timers ∧ e ≠ .expire t.generation := by
  intro t ht
  refine ⟨?_, ?_⟩
  · cases c.step_shift s e with
    | closes f closing items pending generation timers => exact timers.subset ht
    | opens p opened =>
      rw [arrives] at opened
      cases opened
    | stays closing opened pending room generation timers => exact timers.subset ht
  · rintro rfl
    exact c.expire_fired s t.generation t ht rfl

/-! ## all steps -/

/-- The timer of the window is due when the first request has waited long enough, and no two timers
are of one count. -/
structure Armed (c : Scheduler) (s : State) : Prop where
  armed : ∀ first, s.pending.head? = some first →
    ⟨s.generation, first.arrived + c.settings.waitMillis⟩ ∈ s.timers
  current : ∀ t ∈ s.timers, t.generation = s.generation →
    ∃ first, s.pending.head? = some first ∧ t.due = first.arrived + c.settings.waitMillis
  known : ∀ t ∈ s.timers, t.generation ≤ s.generation
  distinct : (s.timers.map (·.generation)).Nodup

/-- Beside that, the window has room. -/
structure Ticking (c : Scheduler) (s : State) : Prop extends Armed c s where
  room : s.pending.length < c.settings.waitQueries

theorem armed_start (c : Scheduler) : c.Armed {} where
  armed first hfirst := by cases hfirst
  current t ht := absurd ht List.not_mem_nil
  known t ht := absurd ht List.not_mem_nil
  distinct := List.nodup_nil

theorem Armed.shift {c : Scheduler} {s s' : State} {e : Event} (h : c.Armed s)
    (hs : Shift c s e s') : c.Armed s' := by
  cases hs with
  | closes f closing items pending generation timers queue =>
    have hold : ∀ t ∈ s'.timers, t.generation < s'.generation := by
      intro t ht
      have hknown := h.known t (timers.subset ht)
      omega
    refine ⟨fun first hfirst => ?_, fun t ht heq => ?_, fun t ht => Nat.le_of_lt (hold t ht),
      (timers.map _).nodup h.distinct⟩
    · rw [pending] at hfirst
      cases hfirst
    · have hlt := hold t ht
      omega
  | opens p arrives closing empty room pending generation timers queue =>
    -- no timer has the count of an empty window
    have hnone : ∀ t ∈ s.timers, t.generation ≠ s.generation := by
      intro t ht heq
      obtain ⟨first, hfirst, _⟩ := h.current t ht heq
      rw [empty] at hfirst
      cases hfirst
    refine ⟨fun first hfirst => ?_, fun t ht heq => ?_, fun t ht => ?_, ?_⟩
    · rw [pending] at hfirst
      cases hfirst
      rw [timers, generation]
      exact List.mem_append_right _ (List.mem_singleton_self _)
    · rw [timers] at ht
      rw [generation] at heq
      rcases List.mem_append.mp ht with ht | ht
      · exact absurd heq (hnone t ht)
      · rw [List.mem_singleton.mp ht, pending]
        exact ⟨p, rfl, rfl⟩
    · rw [timers] at ht
      rw [generation]
      rcases List.mem_append.mp ht with ht | ht
      · exact h.known t ht
      · rw [List.mem_singleton.mp ht]
    · rw [timers, List.map_append]
      refine List.nodup_append.mpr ⟨h.distinct, List.nodup_singleton _, ?_⟩
      intro i hi j hj
      obtain ⟨t, ht, rfl⟩ := List.mem_map.mp hi
      rw [List.mem_singleton.mp hj]
      exact hnone t ht
  | stays closing opened pending room generation timers kept queue =>
    -- what comes in does not come first
    have hhead : s'.pending.head? = s.pending.head? := by
      rw [pending]
      cases hp : s.pending with
      | nil => rw [opened hp]; rfl
      | cons first rest => rfl
    refine ⟨fun first hfirst => ?_, fun t ht heq => ?_, fun t ht => ?_,
      (timers.map _).nodup h.distinct⟩
    · rw [hhead] at hfirst
      rw [generation]
      exact kept _ (h.armed first hfirst) rfl
    · rw [hhead]
      rw [generation] at heq
      exact h.current t (timers.subset ht) heq
    · rw [generation]
      exact h.known t (timers.subset ht)

theorem Ticking.shift {c : Scheduler} {s s' : State} {e : Event} (h : c.Ticking s)
    (hs : Shift c s e s') : c.Ticking s' := by
  have hpos : 0 < c.settings.waitQueries := Nat.zero_lt_of_lt h.room
  refine ⟨h.toArmed.shift hs, ?_⟩
  cases hs with
  | closes f closing items pending =>
    rw [pending]
    exact hpos
  | opens p arrives closing empty room pending =>
    rw [pending]
    exact room
  | stays closing opened pending room => exact room h.room

/-- What was closed so far. -/
structure Counted (c : Scheduler) (past : List Moment) (s : State) : Prop where
  generation : s.generation = (c.closings past).length
  order : (c.closings past).flatMap Flush.items ++ s.pending = arrivals past
  sizes : ∀ f ∈ c.closings past, f.items.length ≤ c.settings.waitQueries
  queue : s.queue.Sublist (c.flushes past)

theorem Counted.shift {c : Scheduler} {past : List Moment} {s s' : State} {e : Event}
    (h : c.Counted past s) (hroom : s.pending.length < c.settings.waitQueries)
    (hs : Shift c s e s') : c.Counted (past ++ [⟨s, e⟩]) s' := by
  have hflushes := c.flushes_snoc past ⟨s, e⟩
  have hone : e.arrivals.length ≤ 1 := by
    cases e <;> simp [Event.arrivals]
  -- nothing is closed, and the window goes on
  have open' : Moment.closing? c ⟨s, e⟩ = none → s'.pending = s.pending ++ e.arrivals →
      s'.generation = s.generation → s'.queue.Sublist s.queue →
      c.Counted (past ++ [⟨s, e⟩]) s' := by
    intro hclosing hpending hgeneration hqueue
    have hsame : c.closings (past ++ [⟨s, e⟩]) = c.closings past := by
      rw [closings_snoc, hclosing]
      exact List.append_nil _
    refine ⟨?_, ?_, ?_, ?_⟩
    · rw [hsame, hgeneration, h.generation]
    · rw [hsame, hpending, ← List.append_assoc, h.order, arrivals_snoc]
    · rw [hsame]
      exact h.sizes
    · rw [hflushes, hclosing]
      exact (hqueue.trans h.queue).trans (List.sublist_append_left _ _)
  cases hs with
  | closes f closing items pending generation timers queue =>
    have hmore : c.closings (past ++ [⟨s, e⟩]) = c.closings past ++ [f] := by
      rw [closings_snoc, closing]
      rfl
    refine ⟨?_, ?_, fun f' hf' => ?_, ?_⟩
    · rw [hmore, generation, h.generation, List.length_append, List.length_singleton]
    · rw [hmore, pending, List.append_nil, List.flatMap_append, List.flatMap_singleton, items,
        ← List.append_assoc, h.order, arrivals_snoc]
    · rw [hmore] at hf'
      rcases List.mem_append.mp hf' with hf' | hf'
      · exact h.sizes f' hf'
      · rw [List.mem_singleton.mp hf', items, List.length_append]
        omega
    · rw [hflushes, closing]
      exact queue.trans (h.queue.append (List.Sublist.refl _))
  | opens p arrives closing empty room pending generation timers queue =>
    refine open' closing ?_ generation ?_
    · rw [pending, empty, arrives, List.nil_append]
    · rw [queue]
  | stays closing opened pending room generation timers kept queue =>
    exact open' closing pending generation queue

theorem History.window {c : Scheduler} (size : 0 < c.settings.waitQueries) {past : List Moment}
    {s : State} {effects : List Effect} (h : c.History past s effects) :
    c.Ticking s ∧ c.Counted past s := by
  induction h with
  | start =>
    refine ⟨⟨c.armed_start, size⟩, rfl, rfl, ?_, List.Sublist.refl _⟩
    exact fun f hf => absurd hf List.not_mem_nil
  | @next past s effects h e ih =>
    obtain ⟨hticking, hcounted⟩ := ih
    have hshift := c.step_shift s e
    exact ⟨hticking.shift hshift, hcounted.shift hticking.room hshift⟩

/-! ## the clock -/

/-- Readings of a clock, one for each event and one for the end.  A request arrives at the reading
of its event, and the clock does not run past the timer of the open window: that fires first. -/
structure Clocked (c : Scheduler) (clock : Nat → Nat) (es : List Event) : Prop where
  arrives : ∀ (i : Nat) (p : Pending), es[i]? = some (.submit p) → p.arrived = clock i
  fires : ∀ i ≤ es.length, ∀ t ∈ (c.run {} (es.take i)).1.timers,
    t.generation = (c.run {} (es.take i)).1.generation → clock i ≤ t.due

theorem mem_arrivals {es : List Event} {p : Pending} (hp : p ∈ es.flatMap Event.arrivals) :
    ∃ i : Nat, es[i]? = some (.submit p) := by
  obtain ⟨e, he, hpe⟩ := List.mem_flatMap.mp hp
  obtain ⟨i, hi⟩ := List.mem_iff_getElem?.mp he
  refine ⟨i, ?_⟩
  cases e with
  | submit q =>
    rw [List.mem_singleton.mp hpe]
    exact hi
  | _ => exact absurd hpe List.not_mem_nil

/-- **The window and its timer.**  Whatever happens, and in whatever order: the window never holds as
many requests as flush it.  While it holds some, there is a timer of its count, due when the first
of them has waited long enough, and no other timer has this count; while it is empty, no timer has.
A timer of another count changes nothing but that it has fired.  The count is that of the windows
closed so far, so that counters of 64 bits tell the same timers apart as long as there are fewer
than `2 ^ 64` of these.

The windows flushed hold at least one request and no more than flush a window; together with the
open one they hold all requests that came in, in this order.  Whatever comes next: a window that it
flushes goes to the end of what waits to be dispatched, and nothing is told; if the dispatcher is
gone, that the window is lost is noted, and its callers are told.  Nothing else waits to be
dispatched than windows that were flushed, in this order.  On a clock that does not run past the
timer of the window, no window is open for longer than the time to wait after the arrival of its
first request. -/
theorem window_on_time (c : Scheduler) (size : 2 ≤ c.settings.waitQueries) (es : List Event) :
    let past := c.moments {} es
    let s := (c.run {} es).1
    (s.pending.length < c.settings.waitQueries ∧
      (∀ first, s.pending.head? = some first →
        ⟨s.generation, first.arrived + c.settings.waitMillis⟩ ∈ s.timers) ∧
      (∀ t ∈ s.timers, t.generation = s.generation →
        ∃ first, s.pending.head? = some first ∧ t.due = first.arrived + c.settings.waitMillis) ∧
      (s.pending = [] → ∀ t ∈ s.timers, t.generation ≠ s.generation)) ∧
    (∀ t ∈ s.timers, t.generation ≠ s.generation → c.step s (.expire t.generation)
      = ({ s with timers := s.timers.filter fun t' => t'.generation ≠ t.generation }, [])) ∧
    (s.generation = (c.closings past).length ∧
      ((c.closings past).length < 2 ^ 64 → ∀ t ∈ s.timers,
        (t.generation % 2 ^ 64 = s.generation % 2 ^ 64 ↔ t.generation = s.generation))) ∧
    ((∀ f ∈ c.flushes past, 1 ≤ f.items.length ∧ f.items.length ≤ c.settings.waitQueries) ∧
      (c.flushes past).flatMap Flush.items ++ s.pending = es.flatMap Event.arrivals ∧
      (∀ e f, Moment.closing? c ⟨s, e⟩ = some f → f.filled →
        match s.worker with
        | .working _ => (c.step s e).1.queue = s.queue ++ [f] ∧ (c.step s e).2 = []
        | .gone => (c.step s e).1.queue = s.queue ∧ (c.step s e).2
            = .noted (.windowLost c.target.name f.items.length) :: c.drop s f.items) ∧
      s.queue.Sublist (c.flushes past)) ∧
    (∀ clock, c.Clocked clock es → ∀ i ≤ es.length, ∀ first,
      (c.run {} (es.take i)).1.pending.head? = some first →
      ∃ k < i, es[k]? = some (.submit first) ∧ clock i ≤ clock k + c.settings.waitMillis) := by
  intro past s
  have hpos : 0 < c.settings.waitQueries := by omega
  have hwindow : ∀ es, c.Ticking (c.run {} es).1 ∧ c.Counted (c.moments {} es) (c.run {} es).1 :=
    fun es => (c.history_run es).window hpos
  obtain ⟨hticking, hcounted⟩ := hwindow es
  refine ⟨⟨hticking.room, hticking.armed, hticking.current, fun hempty t ht heq => ?_⟩,
    fun t _ hstale => c.expire_stale s hstale, ⟨hcounted.generation, fun hfew t ht => ?_⟩,
    ⟨fun f hf => ?_, ?_, fun _ _ => c.handover, hcounted.queue⟩,
    fun clock hclock i hi first hfirst => ?_⟩
  · obtain ⟨first, hfirst, _⟩ := hticking.current t ht heq
    rw [hempty] at hfirst
    cases hfirst
  · have hknown := hticking.known t ht
    have hcount := hcounted.generation
    have hlt : s.generation < 2 ^ 64 := by
      show (c.run {} es).1.generation < 2 ^ 64
      rw [hcount]
      exact hfew
    have hlt' : t.generation < 2 ^ 64 := Nat.lt_of_le_of_lt hknown hlt
    rw [Nat.mod_eq_of_lt hlt, Nat.mod_eq_of_lt hlt']
  · obtain ⟨hclosing, hfilled⟩ := List.mem_filter.mp hf
    refine ⟨List.length_pos_iff.mpr fun hnil => ?_, hcounted.sizes f hclosing⟩
    unfold Flush.filled at hfilled
    rw [hnil] at hfilled
    cases hfilled
  · have horder := hcounted.order
    rw [arrivals_moments] at horder
    unfold flushes
    rw [flatMap_filled]
    exact horder
  · obtain ⟨hticking', hcounted'⟩ := hwindow (es.take i)
    have hcame : first ∈ (es.take i).flatMap Event.arrivals := by
      have horder := hcounted'.order
      rw [arrivals_moments] at horder
      rw [← horder]
      exact List.mem_append_right _ (List.mem_of_mem_head? hfirst)
    obtain ⟨k, hk⟩ := mem_arrivals hcame
    have hki : k < i := by
      have hlt := (List.getElem?_eq_some_iff.mp hk).1
      rw [List.length_take] at hlt
      omega
    rw [List.getElem?_take_of_lt hki] at hk
    have hfires := hclock.fires i hi _ (hticking'.armed first hfirst) rfl
    refine ⟨k, hki, hk, ?_⟩
    rw [← hclock.arrives k first hk]
    exact hfires

/-- the timer of a window that was flushed by hand fires while the next window is open -/
theorem window_on_time_stale :
    let c : Scheduler := ⟨⟨"accounts", "http://accounts", none, .array, 0⟩,
      ⟨.indiscriminate, .array, 50, 3, 20⟩⟩
    let p (ticket arrived : Nat) : Pending :=
      ⟨ticket, { request := default, caller := default }, arrived⟩
    let es : List Event := [.submit (p 0 7), .flush, .submit (p 1 9), .expire 0]
    let clock (i : Nat) : Nat := [7, 8, 9, 27, 29].getD i 29
    let s := (c.run {} es).1
    2 ≤ c.settings.waitQueries ∧ c.Clocked clock es ∧ s.pending.head? = some (p 1 9) ∧
      ⟨1, 29⟩ ∈ s.timers ∧ s.generation = 1 ∧
      ∃ k < 4, es[k]? = some (.submit (p 1 9)) ∧ clock 4 ≤ clock k + 20 := by
  intro c p es clock s
  have size : 2 ≤ c.settings.waitQueries := by decide
  have arrives : ∀ (i : Nat) (q : Pending), es[i]? = some (.submit q) → q.arrived = clock i := by
    intro i q hi
    match i with
    | 0 => cases hi; rfl
    | 1 => cases hi
    | 2 => cases hi; rfl
    | 3 => cases hi
    | n + 4 => cases hi
  have fires : ∀ i ≤ es.length, ∀ t ∈ (c.run {} (es.take i)).1.timers,
      t.generation = (c.run {} (es.take i)).1.generation → clock i ≤ t.due := by decide
  have hall := c.window_on_time size es
  have hfirst : s.pending.head? = some (p 1 9) := rfl
  exact ⟨size, ⟨arrives, fires⟩, hfirst, hall.1.2.1 _ hfirst, hall.2.2.1.1,
    hall.2.2.2.2 clock ⟨arrives, fires⟩ 4 (Nat.le_refl 4) _ hfirst⟩

end Scheduler

end Coalesce
