import Coalesce.Proofs.Gateway.Isolation
import Coalesce.Proofs.Scheduler.Order
import Mathlib.Data.List.Flatten

/-!
# First come, first served

* `Lane.Moment.serving?`   the batch that is handed to the codec and the transport in a moment;
* `Lane.served_in_order`   requests that might share a call travel in the order in which they were
                           queued: in one batch at their places, or in batches served one after the
                           other.

Callers of one context have one token, and callers with equal headers have equal digests, so that
no digest parts requests that belong together.
-/

namespace Coalesce

namespace Lane

def Moment.serving? (m : Moment) : Option Scheduler.Serving :=
  m.scheduled?.bind Scheduler.Moment.serving?

theorem servings_scheduled (past : List Moment) :
    Scheduler.servings (scheduled past) = past.filterMap Moment.serving? := List.filterMap_filterMap

theorem Change.scheduled_effects {c : Scheduler} {l l' : Lane} {e : Event} {more : List Effect}
    (h : Change c l e l' more) {e' : Scheduler.Event} (he : e.scheduled? = some e') :
    more = (c.step l.scheduler e').2 := by
  rcases h.sides with ⟨e'', hsome, _, _, heffects⟩ | ⟨hnone, _⟩
  · rw [he] at hsome
    cases hsome
    exact heffects
  · rw [he] at hnone
    cases hnone

/-- The calls that are started in such a moment are those for its batch. -/
theorem Moment.serving_calls {c : Scheduler} {m : Moment} {v : Scheduler.Serving}
    (h : m.serving? = some v) : calls (m.lane.step (.batched c) m.event).2 = v.calls c := by
  obtain ⟨m', hm', hv⟩ := Option.bind_eq_some_iff.mp h
  obtain ⟨e, he, rfl⟩ := Option.map_eq_some_iff.mp hm'
  have heffects := (step_change c m.lane m.event).scheduled_effects he
  rw [heffects, (c.step_change m.lane.scheduler e).calls_eq, hv, Option.toList_some,
    List.flatMap_singleton]

/-- the requests that are queued, in order -/
def queued (es : List Event) : List Pending :=
  (es.filterMap Event.scheduled?).flatMap Scheduler.Event.arrivals

theorem queued_moments (c : Scheduler) (l : Lane) (es : List Event) :
    Scheduler.arrivals (scheduled (moments c l es)) = queued es := by
  induction es generalizing l with
  | nil => rfl
  | cons e rest ih =>
    have htail := ih (l.step (.batched c) e).1
    unfold Scheduler.arrivals scheduled queued at htail ⊢
    show (List.filterMap Moment.scheduled? (⟨l, e⟩ :: moments c _ rest)).flatMap _ = _
    rw [List.filterMap_cons, List.filterMap_cons]
    unfold Moment.scheduled?
    cases e.scheduled? with
    | none => exact htail
    | some e' => exact congrArg (e'.arrivals ++ ·) htail

theorem queued_sublist (es : List Event) : (queued es).Sublist (es.flatMap Event.arrivals) := by
  induction es with
  | nil => exact List.Sublist.refl _
  | cons e rest ih =>
    have hhead : (e.scheduled?.toList.flatMap Scheduler.Event.arrivals).Sublist e.arrivals := by
      cases e with
      | execute now transport p =>
        unfold Event.scheduled?
        dsimp only
        split
        · exact List.nil_sublist _
        · exact List.Sublist.refl _
      | resume ticket call outcome => exact List.Sublist.refl _
      | leave ticket => exact List.Sublist.refl _
      | scheduled e =>
        show (([e] : List Scheduler.Event).flatMap _).Sublist _
        rw [List.flatMap_singleton]
        exact List.Sublist.refl _
    have hcons : queued (e :: rest)
        = e.scheduled?.toList.flatMap Scheduler.Event.arrivals ++ queued rest := by
      unfold queued
      rw [List.filterMap_cons]
      cases e.scheduled? <;> simp
    rw [hcons, List.flatMap_cons]
    exact hhead.append ih

/-- Requests of one context, with equal headers, or under no condition are what the strategy would let
share a call. -/
theorem same_of_given {hash : List UInt8 → List UInt8} {changes : List Registry.Event}
    {s : Strategy} {context time : Pending → Nat} {a b : Pending}
    (ha : Registry.Gives hash (Registry.run hash {} (changes.take (time a))) (context a)
      a.item.caller)
    (hb : Registry.Gives hash (Registry.run hash {} (changes.take (time b))) (context b)
      b.item.caller)
    (together : s = .byCaller ∧ context a = context b ∨
      s = .byHeaders ∧ a.item.caller.state.headers = b.item.caller.state.headers ∨
      s = .indiscriminate) : s.same a.item b.item = true := by
  rcases together with ⟨rfl, hcontext⟩ | ⟨rfl, hheaders⟩ | rfl
  · rw [← hcontext] at hb
    exact decide_eq_true (congrArg BatchingState.token (Registry.state_of_run ha hb))
  · refine Strategy.sameHeaders_iff.mpr ⟨?_, hheaders⟩
    rw [Registry.digest_of_run ha, Registry.digest_of_run hb, hheaders]
  · rfl

/-- **First come, first served.**  Contexts are entered, changed and asked for their batching states
in any order, under any hash, and every request has the caller of its context at some time.  Whatever
happens at a target that batches: take two requests of one context under a strategy that looks at
callers, two with equal comparable headers under one that looks at headers, or any two under one
that looks at nothing.  If the first was queued before the second and batches with them are handed to
the codec and the transport in some moments, then either they are in one batch, the first at a
smaller place, or the moment of the first comes before that of the second; and the calls started in
these moments are those for their batches. -/
theorem served_in_order (hash : List UInt8 → List UInt8) (changes : List Registry.Event)
    (c : Scheduler) (es : List Event) (context time : Pending → Nat)
    (given : ∀ p ∈ es.flatMap Event.arrivals, Registry.Gives hash
      (Registry.run hash {} (changes.take (time p))) (context p) p.item.caller)
    (fresh : ((es.flatMap Event.arrivals).map (·.ticket)).Nodup) (a b : Pending)
    (earlier : [a, b].Sublist (queued es))
    (together : c.settings.strategy = .byCaller ∧ context a = context b ∨
      c.settings.strategy = .byHeaders ∧
        a.item.caller.state.headers = b.item.caller.state.headers ∨
      c.settings.strategy = .indiscriminate)
    (i j : Nat) (m n : Moment) (hi : (moments c {} es)[i]? = some m)
    (hj : (moments c {} es)[j]? = some n) (v w : Scheduler.Serving) (hv : m.serving? = some v)
    (hw : n.serving? = some w) (ha : a ∈ v.batch) (hb : b ∈ w.batch) :
    (i < j ∨ i = j ∧ ∃ k l : Nat, k < l ∧ v.batch[k]? = some a ∧ v.batch[l]? = some b) ∧
      calls (m.lane.step (.batched c) m.event).2 = v.calls c ∧
      calls (n.lane.step (.batched c) n.event).2 = w.calls c := by
  refine ⟨?_, m.serving_calls hv, n.serving_calls hw⟩
  obtain ⟨own, hown, _, _⟩ := (history_run c es).scheduler
  have hcame : ∀ p ∈ [a, b], p ∈ es.flatMap Event.arrivals := fun p hp =>
    (queued_sublist es).subset (earlier.subset hp)
  have hsame : c.settings.strategy.same a.item b.item = true :=
    same_of_given (given a (hcame a List.mem_cons_self))
      (given b (hcame b (List.mem_cons_of_mem _ (List.mem_singleton_self b)))) together
  have hnodup : (queued es).Nodup :=
    List.Nodup.of_map (·.ticket) (((queued_sublist es).map _).nodup fresh)
  have hforward : ¬ [b, a].Sublist
      (((moments c {} es).filterMap Moment.serving?).flatMap (·.batch)) := by
    intro hserved
    rw [← servings_scheduled] at hserved
    have hback := hown.not_overtaken hsame hserved
    rw [queued_moments] at hback
    exact pair_not_swapped hnodup earlier hback
  rcases Nat.lt_trichotomy i j with hij | rfl | hji
  · exact Or.inl hij
  · rw [hi] at hj
    cases hj
    rw [hv] at hw
    cases hw
    obtain ⟨k, hk⟩ := List.mem_iff_getElem?.mp ha
    obtain ⟨l, hl⟩ := List.mem_iff_getElem?.mp hb
    refine Or.inr ⟨rfl, k, l, ?_, hk, hl⟩
    rcases Nat.lt_trichotomy k l with hkl | rfl | hlk
    · exact hkl
    · rw [hk] at hl
      cases hl
      exact absurd earlier (pair_not_swapped hnodup earlier)
    · have hserved : v ∈ (moments c {} es).filterMap Moment.serving? :=
        List.mem_filterMap.mpr ⟨m, List.mem_of_getElem? hi, hv⟩
      have hflat := (List.singleton_sublist.mpr hserved).flatMap (·.batch)
      rw [List.flatMap_singleton] at hflat
      exact absurd ((pair_sublist.mpr ⟨l, k, hlk, hl, hk⟩).trans hflat) hforward
  · have hpair := (pair_sublist.mpr ⟨j, i, hji, hj, hi⟩).filterMap Moment.serving?
    have hserved : [w, v].Sublist ((moments c {} es).filterMap Moment.serving?) := by
      simpa only [List.filterMap_cons, hw, hv, List.filterMap_nil] using hpair
    have hflat := hserved.flatMap (·.batch)
    rw [List.flatMap_cons, List.flatMap_singleton] at hflat
    have hboth := (List.singleton_sublist.mpr hb).append (List.singleton_sublist.mpr ha)
    exact absurd (hboth.trans hflat) hforward

/-- two requests of one context, and one of another context between them -/
theorem served_in_order_around :
    let hash (_ : List UInt8) : List UInt8 := []
    let changes : List Registry.Event := [.enter, .enter, .ask 0, .ask 1]
    let contexts := (Registry.run hash {} changes).contexts
    let caller (k : Nat) : Caller := ((contexts.getD k {}).caller hash 3).1
    let c : Scheduler := ⟨⟨"accounts", "http://accounts", none, .array, 0⟩,
      ⟨.byCaller, .array, 50, 3, 20⟩⟩
    let owner (k : Nat) : Nat := [0, 1, 0].getD k 0
    let p (k : Nat) : Pending := ⟨k, { request := default, caller := caller (owner k) }, 0⟩
    let es : List Event := [.execute 0 .silent (p 0), .execute 0 .silent (p 1),
      .execute 0 .silent (p 2), .scheduled (.take 0),
      .scheduled (.serve 0 .silent)]
    (∀ q ∈ es.flatMap Event.arrivals,
      Registry.Gives hash (Registry.run hash {} (changes.take 4)) (owner q.ticket) q.item.caller) ∧
      ((es.flatMap Event.arrivals).map (·.ticket)).Nodup ∧ [p 0, p 2].Sublist (queued es) ∧
      ∃ m v, (moments c {} es)[4]? = some m ∧ m.serving? = some v ∧ p 0 ∈ v.batch ∧
        p 2 ∈ v.batch ∧ ∃ k l : Nat, k < l ∧ v.batch[k]? = some (p 0) ∧ v.batch[l]? = some (p 2) := by
  intro hash changes contexts caller c owner p es
  have given : ∀ q ∈ es.flatMap Event.arrivals,
      Registry.Gives hash (Registry.run hash {} (changes.take 4)) (owner q.ticket) q.item.caller := by
    intro q hq
    rcases List.mem_cons.mp hq with rfl | hq
    · exact ⟨_, rfl, rfl, rfl⟩
    · rcases List.mem_cons.mp hq with rfl | hq
      · exact ⟨_, rfl, rfl, rfl⟩
      · rw [List.mem_singleton.mp hq]
        exact ⟨_, rfl, rfl, rfl⟩
  have fresh : ((es.flatMap Event.arrivals).map (·.ticket)).Nodup := by decide
  have earlier : [p 0, p 2].Sublist (queued es) :=
    pair_sublist.mpr ⟨0, 2, by decide, rfl, rfl⟩
  obtain ⟨m, v, hm, hv, hbatch⟩ : ∃ m v, (moments c {} es)[4]? = some m ∧ m.serving? = some v ∧
      v.batch = [p 0, p 2] := ⟨_, _, rfl, rfl, rfl⟩
  have ha : p 0 ∈ v.batch := by
    rw [hbatch]
    exact List.mem_cons_self
  have hb : p 2 ∈ v.batch := by
    rw [hbatch]
    exact List.mem_cons_of_mem _ (List.mem_singleton_self _)
  have hall := served_in_order hash changes c es (fun q => owner q.ticket) (fun _ => 4) given fresh
    (p 0) (p 2) earlier (Or.inl ⟨rfl, rfl⟩) 4 4 m m hm hm v v hv hv ha hb
  refine ⟨given, fresh, earlier, m, v, hm, hv, ha, hb, ?_⟩
  rcases hall.1 with hlt | ⟨_, hplaces⟩
  · exact absurd hlt (Nat.lt_irrefl 4)
  · exact hplaces

end Lane

end Coalesce
