import Coalesce.Proofs.Simulation.Dispatch
import Coalesce.Simulation.Report

/-!
# The virtual clock

* `World.wall`              the time of day that a reading of the clock tells;
* `World.Clocked`           what happened at a target is a run of its lane on the clock, and what was
                            seen there is what this run brings;
* `World.Settled`           nothing is left to dispatch there, and no timer is due;
* `World.Clocked.settle`    settling does that much, and is part of the run;
* `World.Clocked.advance`   the clock goes on only from a world that is settled;
* `Session.step_clocked`    so whatever is done keeps to the clock;
* `Session.steps_clocked`   every session is a run of each target that batches, on one clock.

Timers fire one after the other.  That one of them is due when another one has fired is clear only
because no two of them are of one count.
-/

namespace Coalesce

theorem Lane.Event.Fits.mono {wall : Nat → Int} {t : Nat} {l l' : Lane} {e : Lane.Event}
    (h : e.Fits wall t l) (timers : l'.scheduler.timers ⊆ l.scheduler.timers) :
    e.Fits wall t l' := by
  cases e with
  | scheduled e =>
    cases e with
    | expire generation => exact fun timer ht => h timer (timers ht)
    | _ => exact h
  | _ => exact h

/-- Only requests that come in start timers, and those that fired are gone. -/
theorem Lane.step_timers (c : Scheduler) (l : Lane) {e : Lane.Event} (arrives : e.arrivals = []) :
    ∀ timer ∈ (l.step (.batched c) e).1.scheduler.timers,
      timer ∈ l.scheduler.timers ∧ e ≠ .scheduled (.expire timer.generation) := by
  intro timer ht
  obtain ⟨e', he, _, hstate, _⟩ | ⟨hnone, hstate⟩ := (Lane.step_change c l e).sides
  · rw [hstate] at ht
    have harrives : e'.arrivals = [] := by
      cases e with
      | execute now transport p => cases arrives
      | resume ticket call outcome => cases he
      | leave ticket =>
        cases he
        rfl
      | scheduled e =>
        cases he
        exact arrives
    obtain ⟨hold, hfired⟩ := c.step_timers l.scheduler harrives timer ht
    refine ⟨hold, fun hexpire => hfired ?_⟩
    subst hexpire
    exact (Option.some.inj he).symm
  · rw [hstate] at ht
    refine ⟨ht, fun hexpire => ?_⟩
    subst hexpire
    cases hnone

namespace World

/-! ## runs -/

def wall (start : Int) (t : Nat) : Int := max 0 (Word.clamp (start + t))

/-- what was seen at a target, at the readings of the clock -/
def seen (target : String) (records : List Record) : List (Nat × Effect) :=
  records.filterMap fun r => if r.target = target then some (r.moment, r.effect) else none

structure Clocked (target : String) (c : Scheduler) (start : Int) (w : World)
    (records : List Record) : Prop where
  route : w.gateway.route? target = some (.batched c)
  started : w.start = start
  timed : ∃ past, Lane.Timed c (wall start) past w.elapsed (w.state.lane target) ∧
    seen target records = stampedAll (fun m => (m.lane.step (.batched c) m.event).2) past

structure Settled (target : String) (w : World) : Prop where
  rests : (w.state.lane target).scheduler.Rests
  undue : ∀ timer ∈ (w.state.lane target).scheduler.timers, w.elapsed < timer.due

theorem seen_append (target : String) (first second : List Record) :
    seen target (first ++ second) = seen target first ++ seen target second :=
  List.filterMap_append

theorem seen_own (target : String) (t : Nat) (effects : List Effect) :
    seen target (effects.map (Record.mk t target)) = effects.map (t, ·) := by
  unfold seen
  rw [List.filterMap_map, ← List.filterMap_eq_map]
  exact List.filterMap_congr fun e _ => if_pos rfl

theorem seen_other {target name : String} (h : name ≠ target) (t : Nat) (effects : List Effect) :
    seen target (effects.map (Record.mk t name)) = [] := by
  unfold seen
  rw [List.filterMap_map]
  exact List.filterMap_eq_nil_iff.mpr fun e _ => if_neg h

section
variable {target : String} {c : Scheduler} {start : Int} {w : World} {records : List Record}

/-- An event that fits its reading goes on with the run. -/
theorem Clocked.apply (h : w.Clocked target c start records) (name : String)
    (destination : Destination) {e : Lane.Event}
    (fits : name = target → e.Fits (wall start) w.elapsed (w.state.lane target)) :
    (w.apply name destination e).1.Clocked target c start
      (records ++ (w.apply name destination e).2) := by
  obtain ⟨past, htimed, hseen⟩ := h.timed
  have hrecords : (w.apply name destination e).2
      = (w.gateway.step w.state ⟨name, e⟩).2.map (Record.mk w.elapsed name) := rfl
  by_cases hname : name = target
  · subst hname
    refine ⟨h.route, h.started, past ++ [(w.elapsed, ⟨w.state.lane name, e⟩)], ?_, ?_⟩
    · rw [apply_lane h.route]
      exact htimed.next e (fits rfl)
    · rw [stampedAll_snoc, seen_append, hseen, hrecords, Gateway.step_found h.route, seen_own]
  · refine ⟨h.route, h.started, past, ?_, ?_⟩
    · rw [apply_lane_other hname]
      exact htimed
    · rw [seen_append, hseen, hrecords, seen_other hname, List.append_nil]

/-! ## dispatching -/

theorem Clocked.dispatchReady (h : w.Clocked target c start records) :
    w.dispatchReady.1.Clocked target c start (records ++ w.dispatchReady.2) := by
  refine dispatchAll_induct (P := fun w records => w.Clocked target c start records) ?_ _ _ h
  intro name w records destination e he h
  refine h.apply name destination fun _ => ?_
  have hnow : w.now = wall start w.elapsed := by
    rw [← h.started]
    rfl
  obtain rfl | ⟨transport, rfl⟩ := he
  · exact hnow
  · exact hnow

theorem elapsed_dispatchReady (w : World) : w.dispatchReady.1.elapsed = w.elapsed := by
  have h := dispatchAll_induct (P := fun w' _ => w'.elapsed = w.elapsed)
    (fun _ _ _ _ _ _ h => h) w.targets (w := w) [] rfl
  exact h

/-- What taking and serving keep of a scheduler is kept when everything is dispatched. -/
theorem dispatchAll_keeps (found : w.gateway.route? target = some (.batched c))
    {Q : Scheduler.State → Prop} (each : ∀ s e,
      (∃ now, e = .take now ∨ ∃ transport, e = .serve now transport) → Q s → Q (c.step s e).1)
    (names : List String) (h : Q (w.state.lane target).scheduler) :
    (w.dispatchAll names).1.gateway.route? target = some (.batched c) ∧
      Q ((w.dispatchAll names).1.state.lane target).scheduler := by
  refine dispatchAll_induct (P := fun w _ => w.gateway.route? target = some (.batched c) ∧
    Q (w.state.lane target).scheduler) ?_ names [] ⟨found, h⟩
  intro name w _ destination e he h
  refine ⟨h.1, ?_⟩
  by_cases hname : name = target
  · subst hname
    obtain rfl | ⟨transport, rfl⟩ := he
    · rw [apply_scheduled h.1]
      exact each _ _ ⟨_, .inl rfl⟩ h.2
    · rw [apply_scheduled h.1]
      exact each _ _ ⟨_, .inr ⟨transport, rfl⟩⟩ h.2
  · rw [apply_lane_other hname]
    exact h.2

theorem dispatchAll_rests (found : w.gateway.route? target = some (.batched c))
    (orderly : (w.state.lane target).scheduler.worker = .gone →
      (w.state.lane target).scheduler.queue = []) {names : List String} (one : target ∈ names) :
    ((w.dispatchAll names).1.state.lane target).scheduler.Rests := by
  induction names generalizing w with
  | nil => exact absurd one List.not_mem_nil
  | cons name rest ih =>
    let fuel := backlog (w.state.lane name).scheduler
    show (((dispatch name fuel w).1.dispatchAll rest).1.state.lane target).scheduler.Rests
    -- one target alone, and then the others
    have hfirst := dispatchAll_keeps (Q := fun s => s.worker = .gone → s.queue = []) found
      (fun s e _ h => (c.step_change s e).gone_queue h) [name] orderly
    by_cases hname : name = target
    · subst hname
      exact (dispatchAll_keeps hfirst.1 (fun s e he h => (h.step he).symm ▸ h) rest
        (dispatch_rests found (Nat.le_refl _) orderly)).2
    · refine ih hfirst.1 hfirst.2 ?_
      rcases List.mem_cons.mp one with rfl | hrest
      · exact absurd rfl hname
      · exact hrest

theorem mem_targets {r : Route} (found : w.gateway.route? target = some r) :
    target ∈ w.targets := by
  obtain ⟨first, last, hroutes, _⟩ := List.lookup_eq_some_iff.mp found
  unfold targets
  rw [hroutes, List.map_append, List.map_cons]
  exact List.mem_append_right _ List.mem_cons_self

/-- When everything is dispatched, nothing is left at any target. -/
theorem Clocked.dispatchReady_rests (h : w.Clocked target c start records) :
    (w.dispatchReady.1.state.lane target).scheduler.Rests := by
  obtain ⟨past, htimed, _⟩ := h.timed
  refine dispatchAll_rests h.route ?_ (mem_targets h.route)
  rw [← htimed.scheduler.run_eq]
  exact (c.history_run _).gone_queue

/-! ## timers and returning calls -/

/-- Events that fit and bring no requests go on with the run, start no timers, and stop those that
they fire. -/
theorem Clocked.applyAll (h : w.Clocked target c start records)
    {es : List (String × Lane.Event)} (fits : ∀ e, (target, e) ∈ es → e.arrivals = [] ∧
      e.Fits (wall start) w.elapsed (w.state.lane target)) :
    (w.applyAll es).1.Clocked target c start (records ++ (w.applyAll es).2) ∧
      (w.applyAll es).1.elapsed = w.elapsed ∧
      ∀ timer ∈ ((w.applyAll es).1.state.lane target).scheduler.timers,
        timer ∈ (w.state.lane target).scheduler.timers ∧
          (target, .scheduled (.expire timer.generation)) ∉ es := by
  induction es generalizing w records with
  | nil =>
    show w.Clocked target c start (records ++ []) ∧ _
    rw [List.append_nil]
    exact ⟨h, rfl, fun timer ht => ⟨ht, List.not_mem_nil⟩⟩
  | cons x rest ih =>
    obtain ⟨name, e⟩ := x
    have hnext := h.apply name (.delivery 0) (e := e) fun hname =>
      (fits e (hname ▸ List.mem_cons_self)).2
    have htimers : ∀ timer ∈ ((w.quiet name e).1.state.lane target).scheduler.timers,
        timer ∈ (w.state.lane target).scheduler.timers ∧
          (target, .scheduled (.expire timer.generation)) ≠ (name, e) := by
      intro timer ht
      unfold quiet at ht
      by_cases hname : name = target
      · subst hname
        rw [apply_lane h.route] at ht
        obtain ⟨hold, hfired⟩ := Lane.step_timers c _ (fits e List.mem_cons_self).1 timer ht
        exact ⟨hold, fun heq => hfired (congrArg Prod.snd heq).symm⟩
      · rw [apply_lane_other hname] at ht
        exact ⟨ht, fun heq => hname (congrArg Prod.fst heq).symm⟩
    obtain ⟨hclocked, helapsed, hlast⟩ := ih hnext fun e' he' => by
      obtain ⟨harrives, hfits⟩ := fits e' (List.mem_cons_of_mem _ he')
      exact ⟨harrives, hfits.mono fun timer ht => (htimers timer ht).1⟩
    refine ⟨?_, helapsed, fun timer ht => ?_⟩
    · show World.Clocked target c start _ (records ++ (_ ++ _))
      rw [← List.append_assoc]
      exact hclocked
    · obtain ⟨hold, hfired⟩ := hlast timer ht
      obtain ⟨hold', hfirst⟩ := htimers timer hold
      refine ⟨hold', fun hmem => ?_⟩
      rcases List.mem_cons.mp hmem with heq | hmem
      · exact hfirst heq
      · exact hfired hmem

theorem mem_dueTimers {e : Lane.Event} : (target, e) ∈ w.dueTimers ↔ target ∈ w.targets ∧
    ∃ timer ∈ (w.state.lane target).scheduler.timers, timer.due ≤ w.elapsed ∧
      e = .scheduled (.expire timer.generation) := by
  unfold dueTimers
  rw [List.mem_flatMap]
  constructor
  · rintro ⟨name, hname, hmem⟩
    obtain ⟨timer, ht, hevent⟩ := List.mem_filterMap.mp hmem
    split at hevent
    · rename_i hdue
      cases hevent
      exact ⟨hname, timer, ht, hdue, rfl⟩
    · cases hevent
  · rintro ⟨hname, timer, ht, hdue, rfl⟩
    exact ⟨target, hname, List.mem_filterMap.mpr ⟨timer, ht, if_pos hdue⟩⟩

/-- Timers that are due may fire. -/
theorem Clocked.due_fits (h : w.Clocked target c start records) {e : Lane.Event}
    (due : (target, e) ∈ w.dueTimers) :
    e.arrivals = [] ∧ e.Fits (wall start) w.elapsed (w.state.lane target) := by
  obtain ⟨_, timer, ht, hdue, rfl⟩ := mem_dueTimers.mp due
  refine ⟨rfl, fun other hother hsame => ?_⟩
  obtain ⟨past, htimed, _⟩ := h.timed
  have hdistinct := htimed.scheduler.open.1.distinct
  rw [List.inj_on_of_nodup_map hdistinct hother ht hsame]
  exact hdue

theorem Arrival.event_fits (a : Arrival) (wall : Nat → Int) (t : Nat) (l : Lane) :
    (Arrival.event a).arrivals = [] ∧ (Arrival.event a).Fits wall t l := by
  unfold Arrival.event
  split
  · exact ⟨rfl, trivial⟩
  · exact ⟨rfl, trivial⟩

/-- What comes back brings nothing to dispatch. -/
theorem Arrival.event_rests (a : Arrival) {l : Lane} (rests : l.scheduler.Rests) :
    (l.step (.batched c) (Arrival.event a)).1.scheduler.Rests := by
  obtain ⟨e', he, _, hstate, _⟩ | ⟨_, hstate⟩ := (Lane.step_change c l (Arrival.event a)).sides
  · obtain ⟨id, call, outcome, rfl⟩ : ∃ id call outcome, e' = .finish id call outcome := by
      unfold Arrival.event at he
      split at he
      · cases he
        exact ⟨_, _, _, rfl⟩
      · cases he
    rw [hstate]
    obtain ⟨_, hsame⟩ | ⟨d, _, hsame⟩ := c.finish_cases id call outcome l.scheduler
    · show (c.finish id call outcome l.scheduler).1.Rests
      rw [hsame]
      exact rests
    · show (c.finish id call outcome l.scheduler).1.Rests
      rw [hsame]
      split
      · exact rests
      · exact rests
  · rw [hstate]
    exact rests

theorem applyAll_rests (found : w.gateway.route? target = some (.batched c))
    (rests : (w.state.lane target).scheduler.Rests) {es : List (String × Lane.Event)}
    (returns : ∀ x ∈ es, ∃ a, x.2 = Arrival.event a) :
    ((w.applyAll es).1.state.lane target).scheduler.Rests := by
  induction es generalizing w with
  | nil => exact rests
  | cons x rest ih =>
    refine ih (w := (w.quiet x.1 x.2).1) found ?_ fun y hy => returns y (List.mem_cons_of_mem _ hy)
    unfold quiet
    by_cases hname : x.1 = target
    · obtain ⟨a, ha⟩ := returns x List.mem_cons_self
      rw [hname, apply_lane found, ha]
      exact Arrival.event_rests a rests
    · rw [apply_lane_other hname]
      exact rests

/-! ## settling -/

/-- When the timers that are due have fired, none is due any more. -/
theorem Clocked.fire (h : w.Clocked target c start records) :
    (w.applyAll w.dueTimers).1.Clocked target c start (records ++ (w.applyAll w.dueTimers).2) ∧
      ∀ timer ∈ ((w.applyAll w.dueTimers).1.state.lane target).scheduler.timers,
        (w.applyAll w.dueTimers).1.elapsed < timer.due := by
  obtain ⟨hfired, helapsed, htimers⟩ := h.applyAll fun e he => h.due_fits he
  refine ⟨hfired, fun timer ht => ?_⟩
  obtain ⟨hold, hnot⟩ := htimers timer ht
  rw [helapsed]
  refine Nat.lt_of_not_le fun hdue => hnot ?_
  exact mem_dueTimers.mpr ⟨mem_targets h.route, timer, hold, hdue, rfl⟩

/-- Then everything is dispatched, which starts no timer. -/
theorem Clocked.dispatchReady_settled (h : w.Clocked target c start records)
    (undue : ∀ timer ∈ (w.state.lane target).scheduler.timers, w.elapsed < timer.due) :
    w.dispatchReady.1.Settled target := by
  refine ⟨h.dispatchReady_rests, ?_⟩
  rw [elapsed_dispatchReady]
  refine (dispatchAll_keeps h.route (Q := fun s => ∀ timer ∈ s.timers, w.elapsed < timer.due)
    (fun s e he hs timer ht => ?_) w.targets undue).2
  have harrives : e.arrivals = [] := by
    obtain ⟨now, rfl | ⟨transport, rfl⟩⟩ := he
    · rfl
    · rfl
  exact hs timer (c.step_timers s harrives timer ht).1

/-- Calls that come back leave it at that. -/
theorem Clocked.comeBack (h : w.Clocked target c start records) (settled : w.Settled target)
    {late : World} (same : late = { w with arrivals := w.dueArrivals.2 }) :
    (late.applyAll w.dueArrivals.1).1.Clocked target c start
        (records ++ (late.applyAll w.dueArrivals.1).2) ∧
      (late.applyAll w.dueArrivals.1).1.Settled target := by
  subst same
  have hlate : World.Clocked target c start { w with arrivals := w.dueArrivals.2 } records :=
    ⟨h.route, h.started, h.timed⟩
  have hreturns : ∀ x ∈ w.dueArrivals.1, ∃ a, x.2 = Arrival.event a := by
    intro x hx
    obtain ⟨a, _, rfl⟩ := List.mem_map.mp hx
    exact ⟨a, rfl⟩
  have hfits : ∀ e, (target, e) ∈ w.dueArrivals.1 → e.arrivals = [] ∧
      e.Fits (wall start) w.elapsed (w.state.lane target) := by
    intro e he
    obtain ⟨a, rfl⟩ := hreturns _ he
    exact Arrival.event_fits a _ _ _
  obtain ⟨hclocked, helapsed, htimers⟩ := hlate.applyAll hfits
  refine ⟨hclocked, applyAll_rests hlate.route settled.rests hreturns, fun timer ht => ?_⟩
  rw [helapsed]
  exact settled.undue timer (htimers timer ht).1

theorem settle_eq {w w₁ w₂ w₃ w₄ : World} {r₁ r₂ r₃ r₄ : List Record}
    (ready : w.dispatchReady = (w₁, r₁)) (fired : w₁.applyAll w₁.dueTimers = (w₂, r₂))
    (closed : w₂.dispatchReady = (w₃, r₃))
    (returned : { w₃ with arrivals := w₃.dueArrivals.2 }.applyAll w₃.dueArrivals.1 = (w₄, r₄)) :
    w.settle = (w₄, r₁ ++ r₂ ++ r₃ ++ r₄) := by
  rw [settle, ready]
  dsimp only
  rw [fired]
  dsimp only
  rw [closed]
  dsimp only
  rw [returned]

/-- Settling goes on with the run, until nothing is left to dispatch and no timer is due. -/
theorem Clocked.settle (h : w.Clocked target c start records) :
    w.settle.1.Clocked target c start (records ++ w.settle.2) ∧ w.settle.1.Settled target := by
  have hready := h.dispatchReady
  obtain ⟨w₁, r₁, ready⟩ : ∃ w₁ r₁, w.dispatchReady = (w₁, r₁) := ⟨_, _, rfl⟩
  rw [ready] at hready
  obtain ⟨hfired, hundue⟩ := hready.fire
  obtain ⟨w₂, r₂, fired⟩ : ∃ w₂ r₂, w₁.applyAll w₁.dueTimers = (w₂, r₂) := ⟨_, _, rfl⟩
  rw [fired] at hfired hundue
  have hclosed := hfired.dispatchReady
  have hsettled := hfired.dispatchReady_settled hundue
  obtain ⟨w₃, r₃, closed⟩ : ∃ w₃ r₃, w₂.dispatchReady = (w₃, r₃) := ⟨_, _, rfl⟩
  rw [closed] at hclosed hsettled
  have hlast := hclosed.comeBack hsettled rfl
  obtain ⟨w₄, r₄, returned⟩ : ∃ w₄ r₄, { w₃ with arrivals := w₃.dueArrivals.2 }.applyAll
    w₃.dueArrivals.1 = (w₄, r₄) := ⟨_, _, rfl⟩
  rw [returned] at hlast
  rw [settle_eq ready fired closed returned, ← List.append_assoc, ← List.append_assoc,
    ← List.append_assoc]
  exact hlast

/-- What is done, and then settled, goes on with the run. -/
theorem Clocked.then_settle {next : World} {first : List Record} {ran : World × List Record}
    (h : next.Clocked target c start (records ++ first))
    (settled : ∀ last more, next.settle = (last, more) → ran = (last, first ++ more)) :
    ran.1.Clocked target c start (records ++ ran.2) ∧ ran.1.Settled target := by
  have hsettle := h.settle
  obtain ⟨last, more, hlast⟩ : ∃ last more, next.settle = (last, more) := ⟨_, _, rfl⟩
  rw [hlast, List.append_assoc] at hsettle
  rw [settled last more hlast]
  exact hsettle

/-! ## what may be done -/

theorem advance_succ (n : Nat) (w : World) :
    let next := { w with elapsed := w.elapsed + 1 }.settle
    World.advance (n + 1) w
      = ((World.advance n next.1).1, next.2 ++ (World.advance n next.1).2) := by
  rw [World.advance]

/-- The clock may go on from a world that is settled. -/
theorem Clocked.tick (h : w.Clocked target c start records) (settled : w.Settled target) :
    Clocked target c start { w with elapsed := w.elapsed + 1 } records := by
  obtain ⟨past, htimed, hseen⟩ := h.timed
  refine ⟨h.route, h.started, past, ?_, hseen⟩
  exact htimed.tick _ (Nat.le_succ _) ⟨settled.rests, fun timer ht _ => settled.undue timer ht⟩

theorem Clocked.advance (n : Nat) (h : w.Clocked target c start records)
    (settled : w.Settled target) :
    (advance n w).1.Clocked target c start (records ++ (advance n w).2) ∧
      (advance n w).1.Settled target := by
  induction n generalizing w records with
  | zero =>
    show w.Clocked target c start (records ++ []) ∧ w.Settled target
    rw [List.append_nil]
    exact ⟨h, settled⟩
  | succ n ih =>
    obtain ⟨hclocked, hsettled⟩ := (h.tick settled).settle
    rw [advance_succ, ← List.append_assoc]
    exact ih hclocked hsettled

theorem Clocked.submitAll {requests : List (String × Pending)}
    (arrived : ∀ x ∈ requests, x.2.arrived = w.elapsed) (h : w.Clocked target c start records) :
    (w.submitAll requests).1.Clocked target c start (records ++ (w.submitAll requests).2) := by
  induction requests generalizing w records with
  | nil =>
    show w.Clocked target c start (records ++ [])
    rwa [List.append_nil]
  | cons x rest ih =>
    have hnow : w.now = wall start w.elapsed := by
      rw [← h.started]
      rfl
    have hnext := h.apply x.1 (.solo x.2.ticket) (e := .execute w.now
      (Script.transport (w.scriptsOf x.1)) x.2) fun _ => ⟨hnow, arrived x List.mem_cons_self⟩
    rw [World.submitAll, ← List.append_assoc]
    exact ih (fun y hy => arrived y (List.mem_cons_of_mem _ hy)) hnext

theorem Clocked.submit {requests : List (String × Pending)}
    (arrived : ∀ x ∈ requests, x.2.arrived = w.elapsed) (h : w.Clocked target c start records) :
    (w.submit requests).1.Clocked target c start (records ++ (w.submit requests).2) ∧
      (w.submit requests).1.Settled target := by
  have hall := h.submitAll arrived
  obtain ⟨next, first, submitted⟩ : ∃ next first, w.submitAll requests = (next, first) := ⟨_, _, rfl⟩
  rw [submitted] at hall
  refine hall.then_settle fun last more settled => ?_
  rw [World.submit, submitted]
  dsimp only
  rw [settled]

/-- What happens at a target without a call, and then settled, goes on with the run. -/
theorem Clocked.quiet (h : w.Clocked target c start records) (name : String) {e : Lane.Event}
    (fits : name = target → e.Fits (World.wall start) w.elapsed (w.state.lane target))
    {ran : World × List Record}
    (settled : ∀ next first last more, w.quiet name e = (next, first) →
      next.settle = (last, more) → ran = (last, first ++ more)) :
    ran.1.Clocked target c start (records ++ ran.2) ∧ ran.1.Settled target := by
  have hnext := h.apply name (.delivery 0) fits
  obtain ⟨next, first, happened⟩ : ∃ next first, w.quiet name e = (next, first) := ⟨_, _, rfl⟩
  rw [World.quiet] at happened
  rw [happened] at hnext
  exact hnext.then_settle fun last more => settled next first last more happened

theorem Clocked.flush (h : w.Clocked target c start records) (name : String) :
    (w.flush name).1.Clocked target c start (records ++ (w.flush name).2) ∧
      (w.flush name).1.Settled target := by
  refine h.quiet name (e := .scheduled .flush) (fun _ => trivial) ?_
  intro next first last more happened settled
  rw [World.flush, happened]
  dsimp only
  rw [settled]

theorem Clocked.cancel (h : w.Clocked target c start records) (name : String) (ticket : Nat) :
    (w.cancel name ticket).1.Clocked target c start (records ++ (w.cancel name ticket).2) ∧
      (w.cancel name ticket).1.Settled target := by
  refine h.quiet name (e := .leave ticket) (fun _ => trivial) ?_
  intro next first last more happened settled
  rw [World.cancel, happened]
  dsimp only
  rw [settled]

end

end World

/-! ## sessions -/

namespace Session

structure Clocked (target : String) (c : Scheduler) (start : Int) (s : Session)
    (records : List World.Record) : Prop where
  world : s.world.Clocked target c start records
  settled : s.world.Settled target

section
variable {target : String} {c : Scheduler} {start : Int} {s : Session}
  {records : List World.Record}

theorem after_clocked {seen : World × List World.Record}
    (h : seen.1.Clocked target c start (records ++ seen.2) ∧ seen.1.Settled target) :
    ∃ more, (s.after seen).2 = (s.after seen).1.report more ∧
      (s.after seen).1.Clocked target c start (records ++ more) :=
  ⟨seen.2, rfl, h.1, h.2⟩

/-- Whatever is done goes on with the run, and the report is on what was seen of it. -/
theorem step_clocked (h : s.Clocked target c start records) (x : Step) :
    ∃ more, (s.step x).2 = (s.step x).1.report more ∧
      (s.step x).1.Clocked target c start (records ++ more) := by
  cases x with
  | submit requests =>
    rw [step]
    refine after_clocked (h.world.submit fun x hx => ?_)
    obtain ⟨_, _, rfl⟩ := List.mem_map.mp hx
    rfl
  | advance millis =>
    rw [step]
    exact after_clocked (h.world.advance millis h.settled)
  | flush name =>
    rw [step]
    exact after_clocked (h.world.flush name)
  | cancel name =>
    rw [step]
    split
    · exact after_clocked (h.world.cancel _ _)
    · refine after_clocked ⟨?_, h.settled⟩
      rw [List.append_nil]
      exact h.world

theorem run_clocked (h : s.Clocked target c start records) (xs : List Step) :
    ∃ seen : List (List World.Record),
      List.Forall₂ (fun report records => ∃ s' : Session, report = s'.report records)
        (s.steps xs).2 seen ∧
      (s.steps xs).1.Clocked target c start (records ++ seen.flatten) := by
  induction xs generalizing s records with
  | nil =>
    refine ⟨[], .nil, ?_⟩
    rw [List.flatten_nil, List.append_nil]
    exact h
  | cons x rest ih =>
    obtain ⟨more, hreport, hnext⟩ := step_clocked h x
    obtain ⟨seen, hreports, hlast⟩ := ih hnext
    refine ⟨more :: seen, .cons ⟨_, hreport⟩ hreports, ?_⟩
    rw [List.flatten_cons, ← List.append_assoc]
    exact hlast

end

/-- **Sessions keep to a clock.**  Whatever is done in a session, what happened at a target that
batches is a run of its lane on one clock, up to the reading at the end, and the clock may go on from
there; so its scheduler's events are at readings of a clock that does not run past the timer of the
open window.  The reports are on what was seen, and what was seen at this target is what the run
brings. -/
theorem steps_clocked (g : Gateway) {target : String} {c : Scheduler}
    (found : g.route? target = some (.batched c)) (start : Int)
    (scripts : List (String × List Script)) (xs : List Step) :
    let ran := Session.steps { world := { gateway := g, start, scripts } } xs
    let w := ran.1.world
    ∃ (seen : List (List World.Record)) (past : List (Nat × Lane.Moment)),
      List.Forall₂ (fun report records => ∃ s : Session, report = s.report records) ran.2 seen ∧
      World.seen target seen.flatten
        = stampedAll (fun m => (m.lane.step (.batched c) m.event).2) past ∧
      Lane.Timed c (World.wall start) past w.elapsed (w.state.lane target) ∧
      Lane.Timed c (World.wall start) past (w.elapsed + 1) (w.state.lane target) ∧
      c.Clocked (fun i => ((Lane.scheduledAt past)[i]?.map (·.1)).getD w.elapsed)
        ((Lane.scheduledAt past).map fun x => x.2.event) := by
  intro ran w
  have hstart : Session.Clocked target c start { world := { gateway := g, start, scripts } } [] := by
    refine ⟨⟨found, rfl, [], .start, rfl⟩, ⟨rfl, rfl⟩, fun timer ht => ?_⟩
    exact absurd ht List.not_mem_nil
  obtain ⟨seen, hreports, hclocked, hsettled⟩ := run_clocked hstart xs
  obtain ⟨past, htimed, hseen⟩ := hclocked.timed
  refine ⟨seen, past, hreports, hseen, htimed, ?_, htimed.scheduler.clocked⟩
  exact htimed.tick _ (Nat.le_succ _) ⟨hsettled.rests, fun timer ht _ => hsettled.undue timer ht⟩

end Session

end Coalesce
