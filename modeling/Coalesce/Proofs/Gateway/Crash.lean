import Coalesce.Proofs.Gateway.Failure
import Coalesce.Proofs.Scheduler.Crash

/-!
# Crashes

* `Lane.History.lost`  what the dispatcher takes with it when it crashes;
* `Lane.crash_stays_unless_at_once`
                       a batch that crashes later than on being served is the end of itself alone;
                       one that crashes on being served is the end of the dispatcher, and everything
                       that is not served yet is lost.
-/

namespace Coalesce

namespace Lane

/-- All requests that the dispatcher holds when it crashes, or that wait for it, are told that no
answer comes; those in the window, and those that come in later, are told nothing else. -/
theorem History.lost {c : Scheduler} {past : List Moment} {l : Lane} {effects : List Effect}
    (h : History c past l effects) (fresh : ((arrivals past).map (·.ticket)).Nodup)
    {before after : List Scheduler.Moment} {m : Scheduler.Moment}
    (split : scheduled past = before ++ m :: after) {v : Scheduler.Serving}
    (serving : m.serving? = some v) (crashed : v.progress c = .ended .crashed) :
    (∀ p ∈ m.state.worker.batches.flatten ++ m.state.queue.flatMap Flush.items,
      answersTo p.ticket effects = if p.ticket ∈ m.state.left then [] else [.error c.dropped]) ∧
    ∀ p ∈ m.state.pending ++ Scheduler.arrivals after, ∀ result ∈ answersTo p.ticket effects,
      result = .error c.dropped := by
  obtain ⟨own, hown, hqueued, hanswers⟩ := h.queued_answers fresh
  rw [split] at hown hqueued hanswers
  have hheld : ∀ p ∈ m.state.held, answersTo p.ticket effects = answersTo p.ticket own :=
    fun p hp => hanswers p (hown.held_before (List.mem_append_right _ List.mem_cons_self) hp)
  refine ⟨fun p hp => ?_, fun p hp result hresult => ?_⟩
  · rw [hheld p (Scheduler.held_dispatched hp)]
    exact hown.lost hqueued serving crashed hp
  · have hsame : answersTo p.ticket effects = answersTo p.ticket own := by
      rcases List.mem_append.mp hp with hp | hp
      · exact hheld p (List.mem_append_left _ hp)
      · refine hanswers p ?_
        rw [List.append_cons, Scheduler.arrivals_append]
        exact List.mem_append_right _ hp
    rw [hsame] at hresult
    exact hown.lost_later hqueued serving crashed hp hresult

theorem scheduled_in (c : Scheduler) (before after : List Event) (e : Scheduler.Event) :
    ⟨(run (.batched c) {} before).1.scheduler, e⟩
      ∈ scheduled (moments c {} (before ++ .scheduled e :: after)) := by
  rw [moments_append, scheduled_append]
  exact List.mem_append_right _ List.mem_cons_self

/-- **Crashes stay in their batch, unless they come at once.**  Take a run at a target that batches,
and one batch that is served in it.  If it does not crash on being served, then each of its members
is told that no answer comes if it crashes later; and all calls, answers and batches but its own are
those of any other run with the same other events, such as one in which it fails with an ordinary
error.  But if it crashes on being served, then no batch is served after it and no window is cut any
more; all other batches of its window and all flushed windows are told that no answer comes, and
requests that are in the window, or come in later, are told nothing else. -/
theorem crash_stays_unless_at_once (c : Scheduler) (before after : List Event)
    (v : Scheduler.Serving) (rest : List (List Pending))
    (working : (run (.batched c) {} before).1.scheduler.worker = .working (v.batch :: rest)) :
    let s := (run (.batched c) {} before).1.scheduler
    let es := before ++ .scheduled (.serve v.now v.transport) :: after
    let past := moments c {} es
    let effects := (run (.batched c) {} es).2
    let tickets := v.batch.map (·.ticket)
    ((es.flatMap Event.arrivals).map (·.ticket)).Nodup →
    (v.progress c ≠ .ended .crashed →
      (∀ m ∈ scheduled past, c.Ends m v.batch .crashed → ∀ p ∈ v.batch,
        answersTo p.ticket effects = if p.ticket ∈ m.state.left then [] else [.error c.dropped]) ∧
      ∀ (k : Codec) (w : Scheduler.Serving) (after' : List Event), w.batch = v.batch →
        w.progress (c.withCodec k) ≠ .ended .crashed →
        (after.filter fun e => ¬ e.ofDelivery s.nextDelivery)
          = (after'.filter fun e => ¬ e.ofDelivery s.nextDelivery) →
        Agreed c k s.nextDelivery past →
        let es' := before ++ .scheduled (.serve w.now w.transport) :: after'
        outside tickets effects = outside tickets (run (.batched (c.withCodec k)) {} es').2 ∧
          formed c past = formed (c.withCodec k) (moments (c.withCodec k) {} es')) ∧
    (v.progress c = .ended .crashed →
      Scheduler.servings (scheduled past)
        = Scheduler.servings (scheduled (moments c {} before)) ++ [v] ∧
      c.formed (scheduled past) = c.formed (scheduled (moments c {} before)) ∧
      (∀ p ∈ v.batch ++ rest.flatten ++ s.queue.flatMap Flush.items,
        answersTo p.ticket effects = if p.ticket ∈ s.left then [] else [.error c.dropped]) ∧
      ∀ p ∈ s.pending ++ queued after, ∀ result ∈ answersTo p.ticket effects,
        result = .error c.dropped) := by
  intro s es past effects tickets fresh
  have hhistory : History c past _ effects := history_run c es
  have hfresh : ((arrivals past).map (·.ticket)).Nodup := by
    rw [arrivals_moments]
    exact fresh
  refine ⟨fun alive => ⟨fun m hm hcrashes p hp => ?_, ?_⟩, fun crashed => ?_⟩
  · exact hhistory.failed hfresh hm hcrashes rfl hp
  · intro k w after' same alive' others agreed es'
    obtain ⟨_, houtside, hformed⟩ :=
      (beside_of_filter working rfl same alive alive' others).apart agreed
    exact ⟨houtside, hformed⟩
  · obtain ⟨own, hown, _, _⟩ := hhistory.scheduler
    -- the scheduler sees what comes before, the batch, and what comes after
    obtain ⟨l, hpast⟩ : ∃ l, scheduled past = scheduled (moments c {} before) ++
        ⟨s, .serve v.now v.transport⟩ :: scheduled (moments c l after) := by
      show ∃ l, scheduled (moments c {} (before ++ _ :: after)) = _
      rw [moments_append, scheduled_append]
      exact ⟨((run (.batched c) {} before).1.step (.batched c)
        (.scheduled (.serve v.now v.transport))).1, rfl⟩
    have hserving := Scheduler.serving?_serve v.now v.transport working
    have hbatches : s.worker.batches.flatten = v.batch ++ rest.flatten := by
      show (run (.batched c) {} before).1.scheduler.worker.batches.flatten = _
      rw [working]
      rfl
    obtain ⟨hlost, hlater⟩ := hhistory.lost hfresh hpast hserving crashed
    rw [hpast] at hown
    obtain ⟨hserved, hformed⟩ := hown.last_served hserving crashed
    rw [hbatches] at hlost
    rw [queued_moments] at hlater
    rw [hpast]
    exact ⟨hserved, hformed, hlost, hlater⟩

/-- a batch that crashes while it waits for its call, beside a request that travels alone -/
theorem crash_stays_when_late :
    let c : Scheduler := ⟨⟨"accounts", "http://accounts", none, .array, 0⟩,
      ⟨.byCaller, .array, 50, 3, 20⟩⟩
    let caller (token : Nat) : Caller := ⟨[], none, ⟨token, [], default⟩⟩
    let p (ticket token : Nat) : Pending :=
      ⟨ticket, { request := default, caller := caller token }, 0⟩
    let reply : Transport := ⟨fun _ _ => some (.done (.array [.null])), 0⟩
    let slow : Transport := .silent
    let down : Error := .runtime (.unknownTarget "accounts")
    let failing : Transport := ⟨fun _ _ => some (.failed down), 0⟩
    let before : List Event := [.execute 0 reply (p 0 0), .execute 0 reply (p 1 0),
      .execute 0 reply (p 2 1), .scheduled (.take 0)]
    let after : List Event := [.scheduled (.finish 0 0 .crashed), .scheduled (.serve 0 reply)]
    let after' : List Event := [.scheduled (.serve 0 reply)]
    let v : Scheduler.Serving := ⟨0, slow, [p 0 0, p 1 0]⟩
    let es : List Event := before ++ .scheduled (.serve 0 slow) :: after
    let es' : List Event := before ++ .scheduled (.serve 0 failing) :: after'
    (run (.batched c) {} before).1.scheduler.worker = .working [v.batch, [p 2 1]] ∧
      ((es.flatMap Event.arrivals).map (·.ticket)).Nodup ∧ v.progress c ≠ .ended .crashed ∧
      answersTo 0 (run (.batched c) {} es).2 = [.error c.dropped] ∧
      outside [0, 1] (run (.batched c) {} es).2 = outside [0, 1] (run (.batched c) {} es').2 ∧
      answersTo 2 (run (.batched c) {} es).2 = [.ok .null] := by
  intro c caller p reply slow down failing before after after' v es es'
  have working : (run (.batched c) {} before).1.scheduler.worker
      = .working [v.batch, [p 2 1]] := rfl
  have fresh : ((es.flatMap Event.arrivals).map (·.ticket)).Nodup := by decide
  have alive : v.progress c ≠ .ended .crashed := by
    intro h
    cases h
  have alive' : Scheduler.Serving.progress c ⟨0, failing, v.batch⟩ ≠ .ended .crashed := by
    intro h
    cases h
  have agreed : Agreed c c.target.codec 0 (moments c {} es) := by
    refine ⟨fun i u hu hi => ?_, fun u hu => absurd hu List.not_mem_nil⟩
    exact Codec.agree_refl _ _ _
  obtain ⟨hown, hothers⟩ := (crash_stays_unless_at_once c before after v [[p 2 1]] working fresh).1
    alive
  -- the state in which the call comes back
  let s := (run (.batched c) {} (before ++ [.scheduled (.serve 0 slow)])).1.scheduler
  obtain ⟨x, hwaits, hends⟩ : ∃ x, s.deliveries = [⟨0, v.batch, x⟩] ∧
      x.resume c.target.codec 0 .crashed = .ended .crashed := ⟨_, rfl, rfl⟩
  have hleft : s.left = [] := rfl
  have hcrashes : c.Ends ⟨s, .finish 0 0 .crashed⟩ v.batch .crashed := by
    refine .later s 0 0 .crashed ⟨0, v.batch, x⟩ .crashed ?_ hends
    rw [hwaits]
    rfl
  have hm : ⟨s, .finish 0 0 .crashed⟩ ∈ scheduled (moments c {} es) :=
    scheduled_in c (before ++ [.scheduled (.serve 0 slow)]) [.scheduled (.serve 0 reply)] _
  have htold := hown _ hm hcrashes (p 0 0) List.mem_cons_self
  rw [hleft] at htold
  obtain ⟨hsame, _⟩ := hothers c.target.codec ⟨0, failing, v.batch⟩ after' rfl alive' rfl agreed
  exact ⟨working, fresh, alive, htold, hsame, rfl⟩

/-- a batch that crashes on being served, beside a request that travels alone and is answered when
the batch fails -/
theorem crash_at_once_spreads :
    let c : Scheduler := ⟨⟨"accounts", "http://accounts", none, .array, 0⟩,
      ⟨.byCaller, .array, 50, 3, 20⟩⟩
    let caller (token : Nat) : Caller := ⟨[], none, ⟨token, [], default⟩⟩
    let p (ticket token : Nat) : Pending :=
      ⟨ticket, { request := default, caller := caller token }, 0⟩
    let reply : Transport := ⟨fun _ _ => some (.done (.array [.null])), 0⟩
    let served (first : Outcome Json) : List Event :=
      [.execute 0 reply (p 0 0), .execute 0 reply (p 1 0), .execute 0 reply (p 2 1),
        .scheduled (.take 0), .scheduled (.serve 0 ⟨fun _ _ => some first, 0⟩),
        .scheduled (.serve 0 reply)]
    let down : Error := .runtime (.unknownTarget "accounts")
    let effects (first : Outcome Json) : List Effect := (run (.batched c) {} (served first)).2
    (answersTo 2 (effects .crashed) = [.error c.dropped] ∧
        (calls (effects .crashed)).length = 1) ∧
      answersTo 2 (effects (.failed down)) = [.ok .null] ∧
        (calls (effects (.failed down))).length = 2 := by
  intro c caller p reply served down effects
  have hlost : answersTo 2 (effects .crashed) = [.error c.dropped] := rfl
  have hone : (calls (effects .crashed)).length = 1 := by decide +kernel
  have htold : answersTo 2 (effects (.failed down)) = [.ok .null] := rfl
  have htwo : (calls (effects (.failed down))).length = 2 := by decide +kernel
  exact ⟨⟨hlost, hone⟩, htold, htwo⟩

end Lane

end Coalesce
