import Coalesce.Proofs.Gateway.Leaving
import Coalesce.Proofs.Scheduler.Handover
import Coalesce.Proofs.Scheduler.Inputs

/-!
# Upstream timing is not seen

* `Lane.clockwork`         a lane whose events happen at readings of a clock;
* `Lane.Timed.scheduler`   what happened to its scheduler is a run of it on this clock;
* `Lane.callLog`           requests sent alone, and batches that are served;
* `Lane.Timed.calls`       this log and the clock tell the calls, and the transport does not;
* `Lane.Alike`             what comes in is the same in two runs;
* `Lane.upstream_unseen`   then the calls are the same, and batches are handed over at once.
-/

namespace Coalesce

namespace Lane

/-! ## runs on a clock -/

/-- An event may happen at a reading of the clock, which `wall` tells the time of day. -/
def Event.Fits (wall : Nat → Int) (t : Nat) (l : Lane) : Event → Prop
  | .execute now _ p => now = wall t ∧ p.arrived = t
  | .scheduled e => e.Fits wall t l.scheduler
  | _ => True

/-- A lane on a clock, which goes on as that of its scheduler does. -/
def clockwork (c : Scheduler) (wall : Nat → Int) : Clockwork Lane Event Moment where
  start := {}
  step l e := (l.step (.batched c) e).1
  moment := Moment.mk
  fits t l e := e.Fits wall t l
  waits t l := l.scheduler.Rests ∧ l.scheduler.Awaits t

/-- What happened up to a reading of the clock, and where that led. -/
abbrev Timed (c : Scheduler) (wall : Nat → Int) : List (Nat × Moment) → Nat → Lane → Prop :=
  (clockwork c wall).Run

/-- what happened to the scheduler -/
def scheduledAt (past : List (Nat × Moment)) : List (Nat × Scheduler.Moment) :=
  stamped Moment.scheduled? past

/-- the calls that were started, with the requests of each -/
def callsAt (c : Scheduler) (past : List (Nat × Moment)) : List (Nat × Call × List Pending) :=
  stampedAll (fun m => calls (m.lane.step (.batched c) m.event).2) past

theorem Event.Fits.scheduled {wall : Nat → Int} {t : Nat} {l : Lane} {e : Event}
    (fits : e.Fits wall t l) {e' : Scheduler.Event} (he : e.scheduled? = some e') :
    e'.Fits wall t l.scheduler := by
  cases e with
  | execute now transport p =>
    unfold Event.scheduled? at he
    dsimp only at he
    split at he
    · cases he
    · cases he
      exact fits.2
  | resume ticket call outcome => cases he
  | leave ticket =>
    cases he
    trivial
  | scheduled e =>
    cases he
    exact fits

section
variable {c : Scheduler} {wall : Nat → Int} {past : List (Nat × Moment)} {t : Nat} {l : Lane}

/-- What happened to the scheduler is a run of it on the same clock. -/
theorem Timed.scheduler (h : Timed c wall past t l) :
    c.Timed wall (scheduledAt past) t l.scheduler := by
  induction h with
  | start => exact .start
  | @next past t l h e fits ih =>
    have hsnoc : scheduledAt (past ++ [(t, ⟨l, e⟩)])
        = scheduledAt past ++ (Moment.scheduled? ⟨l, e⟩).toList.map (t, ·) :=
      stamped_snoc _ past t _
    show c.Timed wall (scheduledAt (past ++ [(t, ⟨l, e⟩)])) t (l.step (.batched c) e).1.scheduler
    rw [hsnoc]
    unfold Moment.scheduled?
    dsimp only
    rcases (step_change c l e).sides with ⟨e', hsome, _, hstate, _⟩ | ⟨hnone, hstate⟩
    · rw [hsome, hstate]
      exact .next ih e' (fits.scheduled hsome)
    · rw [hnone, hstate]
      exact (List.append_nil (scheduledAt past)).symm ▸ ih
  | tick h t' later waits ih => exact .tick ih t' later waits

theorem mem_scheduledAt {u : Nat} {m : Scheduler.Moment} (hm : (u, m) ∈ scheduledAt past) :
    ∃ n, (u, n) ∈ past ∧
      calls (n.lane.step (.batched c) n.event).2 = calls (c.step m.state m.event).2 := by
  obtain ⟨n, hn, hscheduled⟩ := mem_stamped.mp hm
  obtain ⟨e', he, rfl⟩ := Option.map_eq_some_iff.mp hscheduled
  refine ⟨n, hn, ?_⟩
  rw [step_scheduled c he]

end

/-! ## calls -/

/-- A request is sent alone, as a batch of its own; or a batch is served. -/
def Moment.call? (m : Moment) : Option (List Pending ⊕ List Pending) :=
  match m.event.sending? with
  | some v => some (.inl v.batch)
  | none => m.serving?.map fun v => .inr v.batch

def callLog (past : List (Nat × Moment)) : Log (List Pending) (List Pending) :=
  stamped Moment.call? past

/-- the calls that are started for a batch at a reading, if nothing comes back at once -/
def callsFor (c : Scheduler) (wall : Nat → Int) (t : Nat) (batch : List Pending) :
    List (Call × List Pending) :=
  Scheduler.Serving.calls c ⟨wall t, .silent, batch⟩

theorem sending?_eq_some {e : Event} {v : Scheduler.Serving} (h : e.sending? = some v) :
    (∃ p, e = .execute v.now v.transport p) ∧ e.scheduled? = none := by
  cases e with
  | execute now transport p =>
    unfold Event.sending? at h
    dsimp only at h
    split at h
    · rename_i hsubscription
      cases h
      exact ⟨⟨p, rfl⟩, if_pos hsubscription⟩
    · cases h
  | resume ticket call outcome => cases h
  | leave ticket => cases h
  | scheduled e => cases h

section
variable {c : Scheduler} (covers : c.target.codec.Covers) {wall : Nat → Int} {t : Nat}
include covers

theorem calls_unseen {v : Scheduler.Serving} (now : v.now = wall t) :
    v.calls c = callsFor c wall t v.batch := by
  unfold callsFor Scheduler.Serving.calls Scheduler.Serving.called
  dsimp only
  rw [← now, Target.start_unseen covers v.transport .silent]

/-- The calls of a moment are those for what is sent alone, or served. -/
theorem calls_call {l : Lane} {e : Event} (fits : e.Fits wall t l) :
    calls (l.step (.batched c) e).2
      = (Moment.call? ⟨l, e⟩).elim [] fun batch => callsFor c wall t (batch.elim id id) := by
  unfold Moment.call?
  dsimp only
  cases hsending : e.sending? with
  | some v =>
    obtain ⟨⟨p, rfl⟩, hother⟩ := sending?_eq_some hsending
    rw [(step_change c l _).calls_alone hother, hsending, Option.toList_some,
      List.flatMap_singleton, calls_unseen covers fits.1]
    rfl
  | none =>
    cases hserving : Moment.serving? ⟨l, e⟩ with
    | some v =>
      obtain ⟨m', hm', hv⟩ := Option.bind_eq_some_iff.mp hserving
      obtain ⟨e', he, rfl⟩ := Option.map_eq_some_iff.mp hm'
      obtain ⟨rfl, _⟩ := Scheduler.serving?_eq_some hv
      have hcalls := Moment.serving_calls (c := c) hserving
      dsimp only at hcalls
      rw [hcalls, calls_unseen covers (fits.scheduled he)]
      rfl
    | none =>
      rcases (step_change c l e).sides with ⟨e', hsome, _, _, heffects⟩ | ⟨hother, _⟩
      · have hidle : Scheduler.Moment.serving? ⟨l.scheduler, e'⟩ = none := by
          unfold Moment.serving? Moment.scheduled? at hserving
          dsimp only at hserving
          rw [hsome] at hserving
          exact hserving
        rw [heffects, (c.step_change l.scheduler e').calls_eq, hidle]
        rfl
      · rw [(step_change c l e).calls_alone hother, hsending]
        rfl

end

section
variable {c : Scheduler} {wall : Nat → Int} {past : List (Nat × Moment)} {t : Nat} {l : Lane}

/-- All calls are told by what is sent alone, by what is served, and by the clock. -/
theorem Timed.calls (h : Timed c wall past t l) (covers : c.target.codec.Covers) :
    replay (fun _ _ => ()) (fun _ u batch => callsFor c wall u (batch.elim id id)) () (callLog past)
      = callsAt c past :=
  (h.replayed Moment.call? (fun _ => ()) (fun _ _ => ())
    (fun _ u batch => callsFor c wall u (batch.elim id id))
    (fun m => Coalesce.calls (m.lane.step (.batched c) m.event).2)
    (fun _ _ => rfl) fun _ _ _ fits => calls_call covers fits).2

theorem callLog_moves (past : List (Nat × Moment)) :
    (callLog past).moves = Scheduler.servedAt (scheduledAt past) := by
  refine (stamped_stamped Sum.getRight? Moment.call? past).trans
    (Eq.trans (congrArg (stamped · past) ?_) (stamped_stamped _ Moment.scheduled? past).symm)
  funext m
  unfold Moment.call?
  cases hsending : m.event.sending? with
  | some v =>
    have hother := (sending?_eq_some hsending).2
    unfold Moment.scheduled?
    rw [hother]
    rfl
  | none =>
    unfold Moment.serving?
    cases m.scheduled? with
    | none => rfl
    | some m' =>
      dsimp only [Option.bind_some]
      cases m'.serving? <;> rfl

end

/-! ## two runs -/

/-- What comes in is the same in two runs: for the scheduler, and requests sent alone, placed among
the batches that are served at their readings. -/
structure Alike (past past' : List (Nat × Moment)) : Prop where
  scheduled : Scheduler.Alike (scheduledAt past) (scheduledAt past')
  alone : (callLog past).placed = (callLog past').placed

theorem run_scheduled (c : Scheduler) (l : Lane) (es : List Scheduler.Event) :
    (run (.batched c) l (es.map .scheduled)).1.scheduler = (c.run l.scheduler es).1 := by
  induction es generalizing l with
  | nil => rfl
  | cons e rest ih => exact ih _

theorem scheduled_ended {past : List (Nat × Moment)} {t : Nat} (ended : ∀ x ∈ past, x.1 < t) :
    ∀ x ∈ scheduledAt past, x.1 < t := by
  rintro ⟨u, m⟩ hx
  obtain ⟨n, hn, _⟩ := mem_stamped.mp hx
  exact ended _ hn

section
variable {c : Scheduler} {wall : Nat → Int} {past : List (Nat × Moment)} {t : Nat} {l : Lane}
  (h : Timed c wall past t l)
include h

/-- The batches of a window are handed over, one call each, at the reading of its flush. -/
theorem Timed.called (ended : ∀ x ∈ past, x.1 < t) (calm : c.Calm (scheduledAt past))
    (covers : c.target.codec.Covers) {u : Nat} {f : Flush}
    (flushed : (u, f) ∈ c.flushesAt (scheduledAt past)) :
    ∃ m, (u, m) ∈ scheduledAt past ∧ Scheduler.Takes m (wall u) f ∧ ∀ b ∈ m.formed c,
      ∃ call, (u, call, b) ∈ callsAt c past ∧ call.members = List.range b.length := by
  have hrests := h.scheduler.rests (scheduled_ended ended)
  obtain ⟨m, hm, takes⟩ := h.scheduler.taken calm hrests flushed
  refine ⟨m, hm, takes, fun b hb => ?_⟩
  have hserved : (u, b) ∈ Scheduler.servedAt (scheduledAt past) := by
    rw [(h.scheduler.at_rest calm hrests).2]
    exact mem_stampedAll.mpr ⟨m, hm, hb⟩
  obtain ⟨n, hn, hbatch⟩ := mem_stamped.mp hserved
  obtain ⟨v, hv, rfl⟩ := Option.map_eq_some_iff.mp hbatch
  obtain ⟨call, hcall, hmembers⟩ := h.scheduler.starts calm covers hn hv
  obtain ⟨k, hk, hsame⟩ := mem_scheduledAt hn
  refine ⟨call, mem_stampedAll.mpr ⟨k, hk, ?_⟩, hmembers⟩
  rw [hsame, hcall]
  exact List.mem_singleton_self _

/-- The dispatcher comes to rest on its own, whatever calls are outstanding. -/
theorem Timed.settles (calm : c.Calm (scheduledAt past)) {u : Nat} {m : Moment}
    (hm : (u, m) ∈ past) (transport : Transport) :
    ∃ es, Scheduler.Dispatching (wall u) transport es ∧
      (run (.batched c) m.lane (es.map .scheduled)).1.scheduler.Rests := by
  obtain ⟨first, rest, l', e, rfl, rfl, hrun, _⟩ := Clockwork.Run.at_moment h hm
  have hcalm : c.Calm (scheduledAt first) := fun x hx => by
    refine calm x ?_
    unfold scheduledAt stamped
    rw [List.filterMap_append]
    exact List.mem_append_left _ hx
  obtain ⟨_, batches, hworking, _⟩ := (Timed.scheduler hrun).dispatched hcalm
  obtain ⟨es, hes, hrests⟩ := c.settles (wall u) transport hworking
  refine ⟨es, hes, ?_⟩
  rw [run_scheduled]
  exact hrests

/-- Runs in which the same comes in start the same calls. -/
theorem Timed.calls_alike (ended : ∀ x ∈ past, x.1 < t) (calm : c.Calm (scheduledAt past))
    (covers : c.target.codec.Covers) {past' : List (Nat × Moment)} {l' : Lane}
    (h' : Timed c wall past' t l') (ended' : ∀ x ∈ past', x.1 < t)
    (calm' : c.Calm (scheduledAt past')) (alike : Alike past past') :
    callsAt c past = callsAt c past' := by
  have hmoves : (callLog past).moves = (callLog past').moves := by
    rw [callLog_moves, callLog_moves]
    exact h.scheduler.served_alike (scheduled_ended ended) calm h'.scheduler
      (scheduled_ended ended') calm' alike.scheduled
  have hlog : callLog past = callLog past' :=
    Log.unique (stamped_sorted h.sorted) (stamped_sorted h'.sorted)
      (Log.forces_of_moves (stamped_sorted h'.sorted) hmoves)
      (Log.forces_of_moves (stamped_sorted h.sorted) hmoves.symm) alike.alone
  rw [← h.calls covers, ← h'.calls covers, hlog]

end

/-- **Upstream timing is not seen.**  Take any two runs of a target that batches into lists, up to
the same reading of the clock, in which the same requests come in, the same callers leave, and
windows are flushed by hand at the same readings, but calls come back at any time, with any answers
or errors, or never, and no batch crashes on starting.  Then the same calls are started in both, at
the same readings, with the same bodies, headers and timeouts, and for the same requests.  In either
run, every window is taken at the reading of its flush, and each of its batches is handed over at
this reading, in one call for all its requests; no other batch is, and none twice.  And whatever
calls are outstanding, the dispatcher comes to rest without them, so that the clock, which waits for
the dispatcher, does not wait for them. -/
theorem upstream_unseen (c : Scheduler)
    (lists : c.target.codec = .legacy ∨ c.target.codec = .array) (wall : Nat → Int) (t : Nat)
    (past past' : List (Nat × Moment)) (l l' : Lane) (h : Timed c wall past t l)
    (h' : Timed c wall past' t l') (ended : ∀ x ∈ past, x.1 < t) (ended' : ∀ x ∈ past', x.1 < t)
    (calm : c.Calm (scheduledAt past)) (calm' : c.Calm (scheduledAt past'))
    (alike : Alike past past') :
    callsAt c past = callsAt c past' ∧
    (∀ u f, (u, f) ∈ c.flushesAt (scheduledAt past) →
      ∃ m, (u, m) ∈ scheduledAt past ∧ Scheduler.Takes m (wall u) f ∧ ∀ b ∈ m.formed c,
        ∃ call, (u, call, b) ∈ callsAt c past ∧ call.members = List.range b.length) ∧
    c.handedAt (scheduledAt past) = c.formedAt (scheduledAt past) ∧
    ∀ u m, (u, m) ∈ past → ∀ transport, ∃ es, Scheduler.Dispatching (wall u) transport es ∧
      (run (.batched c) m.lane (es.map .scheduled)).1.scheduler.Rests := by
  have covers := Codec.covers_of_list lists
  refine ⟨?_, fun u f flushed => ?_, ?_, fun u m hm transport => ?_⟩
  · exact h.calls_alike ended calm covers h' ended' calm' alike
  · exact h.called ended calm covers flushed
  · exact h.scheduler.handed calm (h.scheduler.rests (scheduled_ended ended)) covers
  · exact h.settles calm hm transport

/-- a window of two batches, and one whose timer fires: in the one run no call comes back, and in
the other the first call fails at once and the second is answered later -/
theorem upstream_unseen_outstanding :
    let c : Scheduler := ⟨⟨"accounts", "http://accounts", none, .array, 5⟩,
      ⟨.indiscriminate, .array, 1, 2, 20⟩⟩
    let wall : Nat → Int := fun t => 1000 + t
    ∃ past past' l l', Timed c wall past 30 l ∧ Timed c wall past' 30 l' ∧
      (∀ x ∈ past, x.1 < 30) ∧ (∀ x ∈ past', x.1 < 30) ∧ c.Calm (scheduledAt past) ∧
      c.Calm (scheduledAt past') ∧ Alike past past' ∧ l.scheduler.deliveries.length = 3 ∧
      l'.scheduler.deliveries.length = 1 ∧ callsAt c past = callsAt c past' ∧
      (callsAt c past).map (·.1) = [0, 0, 25] := by
  intro c wall
  let p (ticket arrived : Nat) : Pending :=
    ⟨ticket, { request := default, caller := ⟨[], none, default⟩, override := none }, arrived⟩
  let broken : Transport := ⟨fun _ _ => some (.failed (.runtime .noResult)), 0⟩
  let waits (id : Nat) (member : Pending) : Delivery :=
    ⟨id, [member], [Codec.covering (.array [(default : Request).toJson]) 1], [.waiting]⟩
  let closed (ds : List Delivery) : Scheduler.State :=
    { generation := 1, timers := [⟨0, 20⟩], nextDelivery := 2, deliveries := ds }
  let opened (ds : List Delivery) : Scheduler.State :=
    { closed ds with pending := [p 2 5], timers := [⟨0, 20⟩, ⟨1, 25⟩] }
  let fired (ds : List Delivery) : Scheduler.State :=
    { closed ds with generation := 2, queue := [⟨.timer, [p 2 5]⟩] }
  let cut (ds : List Delivery) : Scheduler.State :=
    { closed ds with generation := 2, worker := .working [[p 2 5]] }
  -- the timer of the first window is still there, but old
  have old : ∀ timer ∈ [(⟨0, 20⟩ : Timer)], ∀ n, timer.generation ≠ n + 1 := by
    intro timer ht n hcurrent
    rw [List.mem_singleton.mp ht] at hcurrent
    cases hcurrent
  have due : ∀ timer ∈ [(⟨0, 20⟩ : Timer), ⟨1, 25⟩], timer.generation = 1 → timer.due = 25 := by
    decide
  have full : Timed c wall _ 0 ⟨{ closed [] with
      nextDelivery := 0, worker := .working [[p 0 0], [p 1 0]] }, []⟩ :=
    have new : Timed c wall [] 0 {} := .start
    ((new.next (.execute 1000 .silent (p 0 0)) ⟨rfl, rfl⟩).next
      (.execute 1000 .silent (p 1 0)) ⟨rfl, rfl⟩).next (.scheduled (.take 1000)) rfl
  have opens : ∀ {past} ds, Timed c wall past 0 ⟨closed ds, []⟩ →
      Timed c wall (past ++ [(5, ⟨⟨closed ds, []⟩, .execute 1005 .silent (p 2 5)⟩)]) 5
        ⟨opened ds, []⟩ := by
    intro past ds h
    have later := h.tick 5 (by decide) ⟨⟨rfl, rfl⟩, fun timer ht now => absurd now (old timer ht 0)⟩
    exact later.next _ ⟨rfl, rfl⟩
  have fires : ∀ {past t} ds, t ≤ 25 → Timed c wall past t ⟨opened ds, []⟩ →
      Timed c wall (past ++ [(25, ⟨⟨opened ds, []⟩, .scheduled (.expire 1)⟩)]
        ++ [(25, ⟨⟨fired ds, []⟩, .scheduled (.take 1025)⟩)]
        ++ [(25, ⟨⟨cut ds, []⟩, .scheduled (.serve 1025 .silent)⟩)]) 30
        ⟨{ closed (ds ++ [waits 2 (p 2 5)]) with generation := 2, nextDelivery := 3 }, []⟩ := by
    intro past t ds early h
    have later := h.tick 25 early
      ⟨⟨rfl, rfl⟩, fun timer ht now => Nat.le_of_eq (due timer ht now).symm⟩
    have fired := later.next (.scheduled (.expire 1)) fun timer ht now =>
      Nat.le_of_eq (due timer ht now)
    have taken := fired.next (.scheduled (.take 1025)) rfl
    have served := taken.next (.scheduled (.serve 1025 .silent)) rfl
    exact served.tick 30 (by decide) ⟨⟨rfl, rfl⟩, fun timer ht now => absurd now (old timer ht 1)⟩
  have unanswered := full.next (.scheduled (.serve 1000 .silent)) rfl
  have run := fires _ (by decide) (opens [waits 0 (p 0 0), waits 1 (p 1 0)]
    (unanswered.next (.scheduled (.serve 1000 .silent)) rfl))
  have failed := full.next (.scheduled (.serve 1000 broken)) rfl
  have answered := (opens [waits 1 (p 1 0)]
    (failed.next (.scheduled (.serve 1000 .silent)) rfl)).tick 9 (by decide)
      ⟨⟨rfl, rfl⟩, fun timer ht now => by
        rw [due timer ht now]
        decide⟩
  have run' := fires [] (by decide)
    (answered.next (.scheduled (.finish 1 0 (.done (.array [.null])))) trivial)
  have ends : ∀ {past l} us, Timed c wall past 30 l → past.map (·.1) = us → (∀ u ∈ us, u < 30) →
      ∀ x ∈ past, x.1 < 30 := by
    rintro past l _ h rfl hus x hx
    exact hus _ (List.mem_map_of_mem hx)
  let crashes (v : Scheduler.Serving) : Bool :=
    match v.progress c with
    | .ended .crashed => true
    | _ => false
  have calms : ∀ {past l} bs, Timed c wall past 30 l →
      ((scheduledAt past).filterMap (·.2.serving?)).map crashes = bs → true ∉ bs →
      c.Calm (scheduledAt past) := by
    rintro past l _ h rfl hbs x hx v hv hcrashed
    refine hbs (List.mem_map.mpr ⟨v, List.mem_filterMap.mpr ⟨x, hx, hv⟩, ?_⟩)
    show (match v.progress c with | .ended .crashed => true | _ => false) = true
    rw [hcrashed]
  have ended := ends [0, 0, 0, 0, 0, 5, 25, 25, 25] run rfl (by decide)
  have ended' := ends [0, 0, 0, 0, 0, 5, 9, 25, 25, 25] run' rfl (by decide)
  have calm := calms [false, false, false] run rfl (by decide)
  have calm' := calms [false, false, false] run' rfl (by decide)
  have unseen := upstream_unseen c (Or.inr rfl) wall 30 _ _ _ _ run run' ended ended' calm calm'
  refine ⟨_, _, _, _, run, run', ended, ended', calm, calm', ?alike, rfl, rfl,
    (unseen ?alike).1, rfl⟩
  exact ⟨⟨rfl, rfl⟩, rfl⟩

end Lane

end Coalesce
