import Coalesce.Proofs.Gateway.Apart
import Coalesce.Proofs.Scheduler.Failure

/-!
# Failures stay in their batch

* `Lane.History.queued_answers`
                               what requests are told that were queued is what the scheduler tells
                               them;
* `Lane.History.failed`        when a batch fails, its members are told one error;
* `Lane.failure_stays`         and all others what they are told in a run where it does not fail.
-/

namespace Coalesce

namespace Lane

/-! ## answers of the scheduler -/

theorem answersTo_conclude {ticket ticket' : Nat} (h : ticket' ≠ ticket)
    (outcome : Outcome (List Json)) : answersTo ticket' [conclude ticket outcome] = [] := by
  have hnone : ∀ result : Except Error Json, answersTo ticket' [.answered ticket result] = [] := by
    intro result
    refine List.eq_nil_iff_forall_not_mem.mpr fun r hr => ?_
    have htold := List.mem_singleton.mp (mem_answersTo.mp hr)
    exact h (Prod.mk.inj htold).1
  cases outcome with
  | done results => exact hnone _
  | failed cause => exact hnone _
  | crashed => rfl

/-- the tickets of requests that were sent alone -/
def sentTickets (past : List Moment) : List Nat :=
  (sendings past).flatMap fun v => v.batch.map (·.ticket)

theorem sentTickets_snoc (past : List Moment) (m : Moment) :
    sentTickets (past ++ [m])
      = sentTickets past ++ m.event.sending?.toList.flatMap fun v => v.batch.map (·.ticket) := by
  unfold sentTickets
  rw [sendings_snoc, List.flatMap_append]

/-- What the scheduler does not tell is for requests sent alone. -/
theorem Change.told_alone {c : Scheduler} {past : List Moment} {l l' : Lane}
    {effects more : List Effect} {e : Event} (h : History c past l effects)
    (change : Change c l e l' more) (other : e.scheduled? = none) {ticket : Nat}
    (hticket : ticket ∉ sentTickets (past ++ [⟨l, e⟩])) : answersTo ticket more = [] := by
  have hcalled : ∀ (called : List Call) (batch : List Pending),
      answersTo ticket (called.map fun call => Effect.called call batch) = [] := by
    intro called batch
    unfold answersTo
    rw [answers_called]
    rfl
  rw [sentTickets_snoc] at hticket
  cases change with
  | scheduled _ e' same =>
    rw [other] at same
    cases same
  | started => exact hcalled _ _
  | ended now transport p subscription outcome =>
    rw [answersTo_append, hcalled, List.nil_append]
    refine answersTo_conclude ?_ outcome
    rintro rfl
    rw [sending?_execute subscription] at hticket
    exact hticket (List.mem_append_right _ (List.mem_singleton_self _))
  | idle => rfl
  | resumed => rfl
  | finished call outcome solo one others fewer apart result =>
    refine answersTo_conclude ?_ result
    rintro rfl
    obtain ⟨v, _, hkept⟩ := h.alone solo one
    refine hticket (List.mem_append_left _ (List.mem_flatMap.mpr ⟨v, hkept.sent, ?_⟩))
    rw [hkept.batch]
    exact List.mem_singleton_self _

theorem History.own_answers {c : Scheduler} {past : List Moment} {l : Lane} {effects : List Effect}
    (h : History c past l effects) :
    ∃ own, c.History (scheduled past) l.scheduler own ∧
      ∀ ticket ∉ sentTickets past, answersTo ticket effects = answersTo ticket own := by
  have hold : ∀ past (m : Moment) ticket, ticket ∉ sentTickets (past ++ [m]) →
      ticket ∉ sentTickets past := by
    intro past m ticket hnot hin
    rw [sentTickets_snoc] at hnot
    exact hnot (List.mem_append_left _ hin)
  refine h.by_sides (motive := fun past effects own =>
    ∀ ticket ∉ sentTickets past, answersTo ticket effects = answersTo ticket own) ?_ ?_ ?_
  · exact fun _ _ => rfl
  · intro past l effects own more e _ _ hanswers ticket hticket
    rw [answersTo_append, answersTo_append, hanswers ticket (hold past _ ticket hticket)]
  · intro past l l' effects own more e h change other hanswers ticket hticket
    rw [answersTo_append, change.told_alone h other hticket, List.append_nil,
      hanswers ticket (hold past _ ticket hticket)]

/-- What requests are told that were queued is what the scheduler tells them. -/
theorem History.queued_answers {c : Scheduler} {past : List Moment} {l : Lane} {effects : List Effect}
    (h : History c past l effects) (fresh : ((arrivals past).map (·.ticket)).Nodup) :
    ∃ own, c.History (scheduled past) l.scheduler own ∧
      ((Scheduler.arrivals (scheduled past)).map (·.ticket)).Nodup ∧
      ∀ p ∈ Scheduler.arrivals (scheduled past),
        answersTo p.ticket effects = answersTo p.ticket own := by
  obtain ⟨own, hown, hanswers⟩ := h.own_answers
  have hnodup := ((arrivals_perm past).map (·.ticket)).nodup_iff.mp fresh
  rw [List.map_append] at hnodup
  obtain ⟨hqueued, _, hdisjoint⟩ := List.nodup_append.mp hnodup
  refine ⟨own, hown, hqueued, fun p hp => hanswers p.ticket fun hsent => ?_⟩
  unfold sentTickets at hsent
  rw [← List.map_flatMap] at hsent
  exact hdisjoint p.ticket (List.mem_map.mpr ⟨p, hp, rfl⟩) p.ticket hsent rfl

/-- When a batch fails or crashes, each member is told its error if its caller has not left by then,
and nothing else. -/
theorem History.failed {c : Scheduler} {past : List Moment} {l : Lane} {effects : List Effect}
    (h : History c past l effects) (fresh : ((arrivals past).map (·.ticket)).Nodup)
    {m : Scheduler.Moment} (hm : m ∈ scheduled past) {members : List Pending}
    {outcome : Outcome (List Json)} (hends : c.Ends m members outcome) {cause : Error}
    (fails : c.failure? outcome = some cause) {p : Pending} (hp : p ∈ members) :
    answersTo p.ticket effects = if p.ticket ∈ m.state.left then [] else [.error cause] := by
  obtain ⟨own, hown, hqueued, hanswers⟩ := h.queued_answers fresh
  rw [hanswers p (hown.held_before hm (hends.held hp))]
  exact hown.failed hqueued hm hends fails hp

/-! ## batches that fail -/

/-- **Failures stay in their batch.**  Take a run at a target that batches, and one batch in it that
does not crash when it is served; and take another run with the same events, but for those of this
batch: it is served at another reading of the clock and by another transport, its calls come back
otherwise and in other moments, and the merger may be another one that agrees on all other requests.
If the batch fails in the first run, for whatever reason, then each of its members is told that one
error and nothing else, unless its caller has left by then; that one is told nothing.  And every
other request is told the same in both runs, such as where the batch fails and where it ends well. -/
theorem failure_stays (c : Scheduler) (k : Codec) (before after after' : List Event)
    (v w : Scheduler.Serving) (rest : List (List Pending)) (same : w.batch = v.batch)
    (working : (run (.batched c) {} before).1.scheduler.worker = .working (v.batch :: rest))
    (alive : v.progress c ≠ .ended .crashed)
    (alive' : w.progress (c.withCodec k) ≠ .ended .crashed) :
    let id := (run (.batched c) {} before).1.scheduler.nextDelivery
    let es := before ++ .scheduled (.serve v.now v.transport) :: after
    let es' := before ++ .scheduled (.serve w.now w.transport) :: after'
    (after.filter fun e => ¬ e.ofDelivery id) = (after'.filter fun e => ¬ e.ofDelivery id) →
    ((es.flatMap Event.arrivals).map (·.ticket)).Nodup → Agreed c k id (moments c {} es) →
    (∀ m ∈ scheduled (moments c {} es), ∀ cause, c.Ends m v.batch (.failed cause) →
      ∀ p ∈ v.batch, answersTo p.ticket (run (.batched c) {} es).2
        = if p.ticket ∈ m.state.left then [] else [.error cause]) ∧
    ∀ ticket, ticket ∉ v.batch.map (·.ticket) →
      answersTo ticket (run (.batched c) {} es).2
        = answersTo ticket (run (.batched (c.withCodec k)) {} es').2 := by
  intro id es es' others fresh agreed
  have hfresh : ((arrivals (moments c {} es)).map (·.ticket)).Nodup := by
    rw [arrivals_moments]
    exact fresh
  refine ⟨fun m hm cause hfails p hp => ?_, fun ticket hticket => ?_⟩
  · exact (history_run c es).failed hfresh hm hfails rfl hp
  · have hbeside := beside_of_filter working rfl same alive alive' others
    obtain ⟨_, houtside, _⟩ := hbeside.apart agreed
    rw [← answersTo_outside hticket, houtside, answersTo_outside hticket]

/-- a merger that leaves out one of two requests, whose second caller has left, beside a request that
travels alone -/
theorem failure_stays_merge :
    let lax : Merger := ⟨fun _ _ => .done [⟨default, [0], .null⟩],
      fun _ _ _ response => .done [response]⟩
    let good : Merger := ⟨fun _ _ => .done [⟨default, [0, 1], .null⟩],
      fun _ _ _ response => .done [response, response]⟩
    let c : Scheduler := ⟨⟨"accounts", "http://accounts", none, .single lax, 0⟩,
      ⟨.byCaller, .single, 50, 3, 20⟩⟩
    let caller (token : Nat) : Caller := ⟨[], none, ⟨token, [], default⟩⟩
    let p (ticket token : Nat) : Pending :=
      ⟨ticket, { request := default, caller := caller token }, 0⟩
    let reply : Transport := ⟨fun _ _ => some (.done .null), 0⟩
    let before : List Event := [.execute 0 reply (p 0 0), .execute 0 reply (p 1 0),
      .execute 0 reply (p 2 1), .scheduled (.take 0), .leave 1]
    let after : List Event := [.scheduled (.serve 0 reply)]
    let v : Scheduler.Serving := ⟨0, reply, [p 0 0, p 1 0]⟩
    let es : List Event := before ++ .scheduled (.serve 0 reply) :: after
    let missed : Error := .runtime (.mergeMisses 1 2)
    (run (.batched c) {} before).1.scheduler.worker = .working [v.batch, [p 2 1]] ∧
      v.progress c = .ended (.failed missed) ∧
      ((es.flatMap Event.arrivals).map (·.ticket)).Nodup ∧
      Agreed c (.single good) 0 (moments c {} es) ∧
      answersTo 0 (run (.batched c) {} es).2 = [.error missed] ∧
      answersTo 1 (run (.batched c) {} es).2 = [] ∧
      answersTo 2 (run (.batched c) {} es).2
        = answersTo 2 (run (.batched (c.withCodec (.single good))) {} es).2 := by
  intro lax good c caller p reply before after v es missed
  have working : (run (.batched c) {} before).1.scheduler.worker
      = .working [v.batch, [p 2 1]] := rfl
  have fails : v.progress c = .ended (.failed missed) := rfl
  have ends : v.progress (c.withCodec (.single good)) = .ended (.done [.null, .null]) := rfl
  have fresh : ((es.flatMap Event.arrivals).map (·.ticket)).Nodup := by decide
  have served : Scheduler.servings (scheduled (moments c {} es)) = [v, ⟨0, reply, [p 2 1]⟩] := rfl
  have agreed : Agreed c (.single good) 0 (moments c {} es) := by
    refine ⟨fun i u hu hi => ?_, fun u hu => absurd hu List.not_mem_nil⟩
    rw [served] at hu
    match i with
    | 0 => exact absurd rfl hi
    | 1 =>
      cases hu
      exact Codec.agree_single lax good 0 (p 2 1).item.request
    | n + 2 => cases hu
  have alive : v.progress c ≠ .ended .crashed := by
    rw [fails]
    intro h
    cases h
  have alive' : v.progress (c.withCodec (.single good)) ≠ .ended .crashed := by
    rw [ends]
    intro h
    cases h
  obtain ⟨hinside, houtside⟩ := failure_stays c (.single good) before after after v v [[p 2 1]] rfl
    working alive alive' rfl fresh agreed
  obtain ⟨m, hm, hserving, hleft⟩ : ∃ m, (scheduled (moments c {} es))[5]? = some m ∧
      m.serving? = some v ∧ m.state.left = [1] := ⟨_, rfl, rfl, rfl⟩
  have htold := hinside m (List.mem_of_getElem? hm) missed (.atOnce m v _ hserving fails)
  rw [hleft] at htold
  have hfirst := htold (p 0 0) List.mem_cons_self
  have hsecond := htold (p 1 0) (List.mem_cons_of_mem _ (List.mem_singleton_self _))
  exact ⟨working, fails, fresh, agreed, hfirst, hsecond, houtside 2 (by decide)⟩

end Lane

end Coalesce
