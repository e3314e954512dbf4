import Coalesce.Proofs.Gateway.Lane
import Coalesce.Proofs.Scheduler.Responses

/-!
# Everything happens once at a lane

* `Lane.History.formed_once`, `Lane.History.calls_once`
                             no request is in two batches, and none is answered for by two calls;
* `Lane.History.awaits`      what a request sent alone waits for has not come back;
* `Lane.History.came_once`   no call has two responses.

Requests are told apart by their tickets, which are taken to be different.
-/

namespace Coalesce

namespace Lane

/-! ## requests -/

theorem History.calls_perm {c : Scheduler} {past : List Moment} {l : Lane} {effects : List Effect}
    (h : History c past l effects) :
    (calls effects).Perm ((servings past).flatMap (Scheduler.Serving.calls c)) := by
  obtain ⟨own, hown, hcalls, _⟩ := h.scheduler
  unfold servings
  rw [List.flatMap_append, ← hown.calls_eq]
  exact hcalls

theorem History.formed_arrivals {c : Scheduler} {past : List Moment} {l : Lane}
    {effects : List Effect} (h : History c past l effects) :
    ∃ others, (arrivals past).Perm ((formed c past).flatten ++ others) := by
  obtain ⟨own, hown, _, _⟩ := h.scheduler
  obtain ⟨others, hperm⟩ := hown.formed_arrivals
  refine ⟨l.scheduler.pending ++ l.scheduler.queue.flatMap Flush.items ++ others,
    Multiset.coe_eq_coe.mp ?_⟩
  have harrivals := Multiset.coe_eq_coe.mpr (arrivals_perm past)
  have hformed := Multiset.coe_eq_coe.mpr (formed_perm c past).flatten
  have hscheduled := Multiset.coe_eq_coe.mpr hperm
  rw [List.flatten_append, ← List.flatMap_def] at hformed
  simp only [← Multiset.coe_add] at harrivals hformed hscheduled ⊢
  rw [harrivals, hformed, hscheduled]
  abel

theorem History.carried_formed {c : Scheduler} {past : List Moment} {l : Lane}
    {effects : List Effect} (h : History c past l effects) :
    ∃ others, (formed c past).flatten.Perm ((calls effects).flatMap carried ++ others) := by
  obtain ⟨own, hown, hcalls, _⟩ := h.scheduler
  obtain ⟨others, hperm⟩ := hown.carried_formed
  obtain ⟨others', hperm'⟩ := Scheduler.Serving.carries_all c (sendings past)
  refine ⟨others ++ others', Multiset.coe_eq_coe.mp ?_⟩
  have hformed := Multiset.coe_eq_coe.mpr (formed_perm c past).flatten
  have hcarried := Multiset.coe_eq_coe.mpr (hcalls.flatMap_right carried)
  have hscheduled := Multiset.coe_eq_coe.mpr hperm
  have halone := Multiset.coe_eq_coe.mpr hperm'
  rw [List.flatten_append] at hformed
  rw [List.flatMap_append] at hcarried
  simp only [← Multiset.coe_add] at hformed hcarried hscheduled halone ⊢
  rw [hformed, hcarried, hscheduled, halone]
  abel

section
variable {c : Scheduler} {past : List Moment} {l : Lane} {effects : List Effect}
  (h : History c past l effects) (fresh : ((arrivals past).map (·.ticket)).Nodup)
include h fresh

theorem History.formed_once : ((formed c past).flatMap fun b => b.map (·.ticket)).Nodup := by
  obtain ⟨others, hperm⟩ := h.formed_arrivals
  have hnodup := (hperm.map (·.ticket)).nodup_iff.mp fresh
  rw [List.map_append] at hnodup
  have hformed := (List.nodup_append.mp hnodup).1
  rwa [List.map_flatten, ← List.flatMap_def] at hformed

theorem History.served_once : ((servings past).flatMap fun v => v.batch.map (·.ticket)).Nodup := by
  obtain ⟨own, hown, _, _⟩ := h.scheduler
  obtain ⟨rest, hformed, _⟩ := hown.formed_eq
  have hperm := formed_perm c past
  rw [hformed, List.append_assoc] at hperm
  have hall : (formed c past).Perm ((servings past).map (·.batch) ++ rest) := by
    unfold servings
    rw [List.map_append, List.append_assoc]
    exact hperm.trans (List.perm_append_comm.append_left _)
  have hnodup := (hall.flatMap_right fun b => b.map (·.ticket)).nodup_iff.mp (h.formed_once fresh)
  rw [List.flatMap_append, List.flatMap_map] at hnodup
  exact (List.nodup_append.mp hnodup).1

theorem History.calls_once :
    ((calls effects).flatMap fun x => (carried x).map (·.ticket)).Nodup := by
  obtain ⟨others, hperm⟩ := h.carried_formed
  have hformed := h.formed_once fresh
  rw [List.flatMap_def, ← List.map_flatten] at hformed
  have hnodup := (hperm.map (·.ticket)).nodup_iff.mp hformed
  rw [List.map_append] at hnodup
  have hcalls := (List.nodup_append.mp hnodup).1
  rwa [List.map_flatMap] at hcalls

end

theorem History.batch_formed {c : Scheduler} {past : List Moment} {l : Lane}
    {effects : List Effect} (h : History c past l effects) {v : Scheduler.Serving}
    (hv : v ∈ servings past) : v.batch ∈ formed c past := by
  obtain ⟨own, hown, _, _⟩ := h.scheduler
  refine (formed_perm c past).mem_iff.mpr ?_
  rcases List.mem_append.mp hv with hv | hv
  · obtain ⟨rest, hformed, _⟩ := hown.formed_eq
    rw [hformed]
    exact List.mem_append_left _ (List.mem_append_left _ (List.mem_map.mpr ⟨v, hv, rfl⟩))
  · exact List.mem_append_right _ (List.mem_map.mpr ⟨v, hv, rfl⟩)

/-! ## responses -/

theorem History.before {c : Scheduler} {past : List Moment} {l : Lane} {effects : List Effect}
    (h : History c past l effects) {m : Moment} (hm : m ∈ past) :
    ∃ before after effects', past = before ++ m :: after ∧ History c before m.lane effects' := by
  induction h with
  | start => exact absurd hm List.not_mem_nil
  | @next past l effects h e ih =>
    rcases List.mem_append.mp hm with hm | hm
    · obtain ⟨before, after, effects', heq, hb⟩ := ih hm
      refine ⟨before, after ++ [⟨l, e⟩], effects', ?_, hb⟩
      rw [heq, List.append_assoc]
      rfl
    · rw [List.mem_singleton.mp hm]
      exact ⟨past, [], effects, rfl, h⟩

theorem sent_arrived {past : List Moment} {v : Scheduler.Serving} (hv : v ∈ sendings past)
    {p : Pending} (hp : p ∈ v.batch) : p ∈ arrivals past :=
  (arrivals_perm past).mem_iff.mpr
    (List.mem_append_right _ (List.mem_flatMap.mpr ⟨v, hv, hp⟩))

section
variable {c : Scheduler} {past : List Moment} {l : Lane} {effects : List Effect}
  (h : History c past l effects)
include h

theorem History.solo_arrived {solo : Solo} (hsolo : solo ∈ l.solos) :
    solo.request ∈ arrivals past := by
  obtain ⟨v, ship, hkept⟩ := h.alone solo hsolo
  refine sent_arrived hkept.sent ?_
  rw [hkept.batch]
  exact List.mem_singleton_self _

theorem History.waiting_arrived {m : Moment} (hm : m ∈ past) {solo : Solo}
    (hsolo : solo ∈ m.lane.solos) : solo.request ∈ arrivals past := by
  obtain ⟨before, after, effects', rfl, hbefore⟩ := h.before hm
  rw [arrivals_append]
  exact List.mem_append_left _ (hbefore.solo_arrived hsolo)

end

theorem arrives_new {past : List Moment} {m : Moment}
    (fresh : ((arrivals (past ++ [m])).map (·.ticket)).Nodup) {p : Pending}
    (hp : p ∈ m.event.arrivals) : p ∉ arrivals past := by
  intro hpast
  rw [arrivals_append, List.map_append] at fresh
  have hlast : p ∈ arrivals [m] := List.mem_flatMap.mpr ⟨m, List.mem_singleton_self _, hp⟩
  exact (List.nodup_append.mp fresh).2.2 _ (List.mem_map_of_mem hpast) _
    (List.mem_map_of_mem hlast) rfl

theorem fresh_before {past : List Moment} {m : Moment}
    (fresh : ((arrivals (past ++ [m])).map (·.ticket)).Nodup) :
    ((arrivals past).map (·.ticket)).Nodup := by
  rw [arrivals_append, List.map_append] at fresh
  exact (List.nodup_append.mp fresh).1

theorem sending_arrives {e : Event} {v : Scheduler.Serving} (hv : e.sending? = some v)
    {p : Pending} (hp : p ∈ v.batch) : p ∈ e.arrivals := by
  cases e with
  | execute now transport q =>
    have hif : (if q.item.isSubscription then some (⟨now, transport, [q]⟩ : Scheduler.Serving)
        else none) = some v := hv
    split at hif
    · cases hif
      exact hp
    · cases hif
  | resume ticket call outcome => cases hv
  | leave ticket => cases hv
  | scheduled e => cases hv

/-- A response that came back in the last moment, to a request sent alone. -/
structure Arrives (m : Moment) (v : Scheduler.Serving) (k : Nat) (response : Json)
    (solo : Solo) : Prop where
  event : m.event = .resume solo.request.ticket k (.done response)
  waiting : solo ∈ m.lane.solos
  served : v.batch = [solo.request]
  waits : solo.exchange.slots[k]? = some .waiting

theorem CameAlone.cases {c : Scheduler} {past : List Moment} {m : Moment} {v : Scheduler.Serving}
    {k : Nat} {response : Json} (h : CameAlone c (past ++ [m]) v k response) :
    CameAlone c past v k response ∨ ∃ solo, Arrives m v k response solo := by
  cases h with
  | atOnce came => exact Or.inl (.atOnce came)
  | later m' solo one event waiting served waits =>
    rcases List.mem_append.mp one with hm | hm
    · exact Or.inl (.later m' solo hm event waiting served waits)
    · rw [List.mem_singleton.mp hm] at event waiting
      exact Or.inr ⟨solo, event, waiting, served, waits⟩

theorem History.awaits {c : Scheduler} {past : List Moment} {l : Lane} {effects : List Effect}
    (h : History c past l effects) (fresh : ((arrivals past).map (·.ticket)).Nodup) :
    ∀ solo ∈ l.solos, ∀ v ∈ sendings past, v.batch = [solo.request] →
      solo.exchange.Awaits (CameAlone c past v) := by
  induction h using History.by_changes with
  | start => exact fun solo hsolo => absurd hsolo List.not_mem_nil
  | next past l effects e l' more h _ change ih =>
    have ih := ih (fresh_before fresh)
    -- an event that is not for a request brings nothing back to it
    have quiet : ∀ solo ∈ l.solos,
        (∀ call outcome, e ≠ .resume solo.request.ticket call outcome) →
        ∀ v ∈ sendings (past ++ [⟨l, e⟩]), v.batch = [solo.request] →
          solo.exchange.Awaits (CameAlone c (past ++ [⟨l, e⟩]) v) := by
      intro solo hsolo hother v hv hbatch k response hwaits hcame
      rw [sendings_snoc] at hv
      rcases List.mem_append.mp hv with hv | hv
      · rcases hcame.cases with hold | ⟨solo', hnew⟩
        · exact ih solo hsolo v hv hbatch k response hwaits hold
        · have hsame : solo.request = solo'.request :=
            List.singleton_inj.mp (hbatch.symm.trans hnew.served)
          have hevent := hnew.event
          rw [← hsame] at hevent
          exact hother _ _ hevent
      · have hmem : solo.request ∈ v.batch := by
          rw [hbatch]
          exact List.mem_singleton_self _
        exact arrives_new fresh (sending_arrives (Option.mem_toList.mp hv) hmem)
          (h.solo_arrived hsolo)
    cases change with
    | scheduled _ e' same alone solos fewer =>
      refine fun solo hsolo => quiet solo (fewer.subset hsolo) fun call outcome he => ?_
      rw [he] at same
      cases same
    | started now transport p subscription exchange running =>
      intro solo hsolo
      rcases List.mem_append.mp hsolo with hsolo | hsolo
      · exact quiet solo hsolo fun call outcome he => by cases he
      · rw [List.mem_singleton.mp hsolo]
        intro v hv hbatch k response hwaits hcame
        have hnew : p ∉ arrivals past := arrives_new fresh (List.mem_singleton_self p)
        have hpv : p ∈ v.batch := by
          rw [hbatch]
          exact List.mem_singleton_self _
        rw [sendings_snoc, sending?_execute subscription] at hv
        rcases List.mem_append.mp hv with hv | hv
        · exact hnew (sent_arrived hv hpv)
        · obtain rfl := List.mem_singleton.mp hv
          have hstart : c.target.start now transport [p.item]
              = (Scheduler.Serving.called c ⟨now, transport, [p]⟩, .running exchange) :=
            Prod.ext rfl running
          obtain ⟨_, _, _, _, _, hawaits⟩ := Target.start_running hstart
          rcases hcame.cases with hold | ⟨solo', hlast⟩
          · cases hold with
            | atOnce came => exact hawaits k response hwaits came
            | later m solo' one event waiting served waits =>
              cases served
              exact hnew (h.waiting_arrived one waiting)
          · cases hlast.event
    | ended => exact fun solo hsolo => quiet solo hsolo fun call outcome he => by cases he
    | idle ticket call outcome nobody =>
      refine fun solo hsolo => quiet solo hsolo fun call' outcome' he => ?_
      exact nobody solo hsolo (Event.resume.inj he).1.symm
    | resumed call outcome solo one others fewer apart exchange running =>
      intro solo' hsolo'
      rcases List.mem_append.mp hsolo' with hsolo' | hsolo'
      · refine quiet solo' (fewer.subset hsolo') fun call' outcome' he => ?_
        exact apart solo' hsolo' (Event.resume.inj he).1.symm
      · rw [List.mem_singleton.mp hsolo']
        intro v hv hbatch k response hwaits hcame
        obtain ⟨_, _, hkept⟩ := h.alone solo one
        obtain ⟨hne, hold⟩ := Exchange.resume_waits hkept.backed.length running hwaits
        rw [sendings_snoc] at hv
        have hv : v ∈ sendings past := (List.mem_append.mp hv).resolve_right List.not_mem_nil
        rcases hcame.cases with hcame | ⟨solo', hlast⟩
        · exact ih solo one v hv hbatch k response hold hcame
        · exact hne (Event.resume.inj hlast.event).2.1.symm
    | finished call outcome solo one others fewer apart =>
      refine fun solo' hsolo' => quiet solo' (fewer.subset hsolo') fun call' outcome' he => ?_
      exact apart solo' hsolo' (Event.resume.inj he).1.symm

theorem History.alone_once {c : Scheduler} {past : List Moment} {l : Lane} {effects : List Effect}
    (h : History c past l effects) (fresh : ((arrivals past).map (·.ticket)).Nodup)
    {v : Scheduler.Serving} (hv : v ∈ sendings past) {k : Nat} {response other : Json}
    (hcame : CameAlone c past v k response) (hother : CameAlone c past v k other) :
    response = other := by
  induction h with
  | start => exact absurd hv List.not_mem_nil
  | @next past l effects h e ih =>
    rw [sendings_snoc] at hv
    rcases List.mem_append.mp hv with hv | hv
    · -- what has come is not waited for
      have late : ∀ {response other : Json} {solo : Solo}, CameAlone c past v k response →
          ¬ Arrives ⟨l, e⟩ v k other solo := fun hold hnew =>
        h.awaits (fresh_before fresh) _ hnew.waiting v hv hnew.served k _ hnew.waits hold
      rcases hcame.cases with hold | ⟨solo, hnew⟩
      · rcases hother.cases with hold' | ⟨solo', hnew'⟩
        · exact ih (fresh_before fresh) hv hold hold'
        · exact absurd hnew' (late hold)
      · rcases hother.cases with hold' | ⟨solo', hnew'⟩
        · exact absurd hnew (late hold')
        · have heq := (Event.resume.inj (hnew.event.symm.trans hnew'.event)).2.2
          exact Outcome.done.inj heq
    · -- nothing but what is there at once for the request that comes in
      have hsending := Option.mem_toList.mp hv
      have atOnce : ∀ {response : Json}, CameAlone c (past ++ [⟨l, e⟩]) v k response →
          Target.CameAtOnce v.transport (v.called c) k response := by
        intro response hcame
        cases hcame with
        | atOnce came => exact came
        | later m solo one event waiting served waits =>
          have hmem : solo.request ∈ e.arrivals := by
            refine sending_arrives hsending ?_
            rw [served]
            exact List.mem_singleton_self _
          have hpast : solo.request ∈ arrivals past := by
            rcases List.mem_append.mp one with hm | hm
            · exact h.waiting_arrived hm waiting
            · rw [List.mem_singleton.mp hm] at waiting
              exact h.solo_arrived waiting
          exact absurd hpast (arrives_new fresh hmem)
      exact Target.cameAtOnce_once (atOnce hcame) (atOnce hother)

/-- one place has some element, if none has one twice -/
theorem index_holding {α β : Type} (f : α → List β) {l : List α} (h : (l.flatMap f).Nodup) {a : α}
    {b : β} (hb : b ∈ f a) {i j : Nat} (hi : l[i]? = some a) (hj : l[j]? = some a) : i = j := by
  have hapart := (List.nodup_flatMap.mp h).2
  have hlt : ∀ {i j : Nat}, l[i]? = some a → l[j]? = some a → ¬ i < j := by
    intro i j hi hj hij
    obtain ⟨hil, hai⟩ := List.getElem?_eq_some_iff.mp hi
    obtain ⟨hjl, haj⟩ := List.getElem?_eq_some_iff.mp hj
    have hdisjoint := List.pairwise_iff_getElem.mp hapart i j hil hjl hij
    rw [hai, haj] at hdisjoint
    exact hdisjoint hb hb
  have := hlt hi hj
  have := hlt hj hi
  omega

/-- **No call has two responses.** -/
theorem History.came_once {c : Scheduler} {past : List Moment} {l : Lane} {effects : List Effect}
    (h : History c past l effects) (fresh : ((arrivals past).map (·.ticket)).Nodup)
    {v : Scheduler.Serving} {p : Pending} (hp : p ∈ v.batch) {k : Nat} {response other : Json}
    (hcame : CameBack c past v k response) (hother : CameBack c past v k other) :
    response = other := by
  have honce := h.served_once fresh
  unfold servings at honce
  rw [List.flatMap_append] at honce
  obtain ⟨hbatches, _, hapart⟩ := List.nodup_append.mp honce
  have hticket : p.ticket ∈ v.batch.map (·.ticket) := List.mem_map_of_mem hp
  have either : ∀ id : Nat, (Scheduler.servings (scheduled past))[id]? = some v →
      v ∉ sendings past := by
    intro id served sent
    exact hapart _ (List.mem_flatMap.mpr ⟨v, List.mem_of_getElem? served, hticket⟩) _
      (List.mem_flatMap.mpr ⟨v, sent, hticket⟩) rfl
  cases hcame with
  | batch id served came =>
    cases hother with
    | batch id' served' came' =>
      obtain rfl := index_holding _ hbatches hticket served served'
      obtain ⟨own, hown, _⟩ := h.scheduler
      exact hown.came_once came came'
    | alone sent => exact absurd sent (either id served)
  | alone sent came =>
    cases hother with
    | batch id served => exact absurd sent (either id served)
    | alone _ came' => exact h.alone_once fresh sent came came'

end Lane

end Coalesce
