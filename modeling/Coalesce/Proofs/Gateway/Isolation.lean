import Coalesce.Proofs.Gateway.Results
import Coalesce.Proofs.Registry

/-!
# Isolation of callers

* `Lane.History.sent`        the headers of a call are those of the first member of its batch, and
                             the members of a batch fit;
* `Lane.calls_isolated`      under a strategy that looks at callers or at headers, every request
                             that a call answers for comes from a context with the comparable
                             headers that were sent.

Batches are told apart by digests first, but nothing is asked of the hash: members of one batch have
equal headers, whatever their digests are.
-/

namespace Coalesce

theorem Strategy.fits_refl (s : Strategy) (a : Item) : s.Fits a a := by
  cases s with
  | byCaller => rfl
  | byHeaders => rfl
  | indiscriminate => trivial

namespace Scheduler

theorem formed_batches {c : Scheduler} {past : List Moment} {b : List Pending}
    (hb : b ∈ c.formed past) : ∃ live, b ∈ c.batches live := by
  obtain ⟨m, _, hm⟩ := List.mem_flatMap.mp hb
  unfold Moment.formed at hm
  split at hm
  · exact ⟨_, hm⟩
  · exact absurd hm List.not_mem_nil

end Scheduler

namespace Lane

theorem sending?_single {e : Event} {v : Scheduler.Serving} (h : e.sending? = some v) :
    ∃ p, v.batch = [p] := by
  unfold Event.sending? at h
  split at h
  · split at h
    · cases h
      exact ⟨_, rfl⟩
    · cases h
  · cases h

section
variable {c : Scheduler} {past : List Moment} {l : Lane} {effects : List Effect}
  (h : History c past l effects)
include h

theorem History.fit {v : Scheduler.Serving} (hv : v ∈ servings past) {p q : Pending}
    (hp : p ∈ v.batch) (hq : q ∈ v.batch) : c.settings.strategy.Fits p.item q.item := by
  obtain ⟨own, hown, _, _⟩ := h.scheduler
  rcases List.mem_append.mp hv with hv | hv
  · obtain ⟨rest, hformed, _⟩ := hown.formed_eq
    have hb : v.batch ∈ c.formed (scheduled past) := by
      rw [hformed]
      exact List.mem_append_left _ (List.mem_map.mpr ⟨v, hv, rfl⟩)
    obtain ⟨live, hlive⟩ := Scheduler.formed_batches hb
    exact c.batches_fit hlive hp hq
  · obtain ⟨m, _, hm⟩ := List.mem_filterMap.mp hv
    obtain ⟨r, hr⟩ := sending?_single hm
    rw [hr] at hp hq
    rw [List.mem_singleton.mp hp, List.mem_singleton.mp hq]
    exact Strategy.fits_refl _ _

/-- A call is sent for a batch of requests that came in and fit, with the headers of the first. -/
theorem History.sent {x : Call × List Pending} (hx : x ∈ calls effects) :
    (∃ first, x.2.head? = some first ∧ x.1.headers = first.item.caller.headers) ∧
      (∀ p ∈ x.2, p ∈ arrivals past) ∧
      ∀ p ∈ x.2, ∀ q ∈ x.2, c.settings.strategy.Fits p.item q.item := by
  obtain ⟨v, hv, hcall⟩ := List.mem_flatMap.mp (h.calls_perm.mem_iff.mp hx)
  obtain ⟨call, hcalled, rfl⟩ := List.mem_map.mp hcall
  obtain ⟨ship, encoded, hships, _, rfl⟩ := Target.start_called hcalled
  obtain ⟨first, hfirst, hheaders⟩ := hships.headers
  rw [List.head?_map] at hfirst
  obtain ⟨p, hp, rfl⟩ := Option.map_eq_some_iff.mp hfirst
  refine ⟨⟨p, hp, hheaders⟩, fun q hq => ?_, fun q hq r hr => h.fit hv hq hr⟩
  obtain ⟨others, hperm⟩ := h.formed_arrivals
  exact hperm.mem_iff.mpr
    (List.mem_append_left _ (List.mem_flatten.mpr ⟨v.batch, h.batch_formed hv, hq⟩))

end

/-- **Isolation of callers.**  Contexts are entered, changed and asked for their batching states in
any order, under any hash, but no headers are set once a state is settled; every request that comes
in was given the caller of its context at some time.  Then whatever happens at a target whose
strategy looks at callers or at headers: every call is sent with the headers of the first member of
its batch, and every request that it answers for has a context with the same comparable headers.  If
the strategy looks at callers, all these requests have one and the same context. -/
theorem calls_isolated (hash : List UInt8 → List UInt8) (changes : List Registry.Event)
    (fixed : Registry.Fixed hash {} changes) (c : Scheduler) (es : List Event)
    (context time : Pending → Nat)
    (given : ∀ p ∈ es.flatMap Event.arrivals, Registry.Gives hash
      (Registry.run hash {} (changes.take (time p))) (context p) p.item.caller)
    (guarded : c.settings.strategy = .byCaller ∨ c.settings.strategy = .byHeaders) :
    let contexts := (Registry.run hash {} changes).contexts
    ∀ x ∈ calls (run (.batched c) {} es).2,
      (∃ first, x.2.head? = some first ∧ x.1.headers = first.item.caller.headers) ∧
      ∀ m ∈ carried x,
        (∃ own, contexts[context m]? = some own ∧ m.item.caller.headers = own.headers ∧
          x.1.headers.comparable = own.headers.comparable) ∧
        (c.settings.strategy = .byCaller → ∀ m' ∈ carried x, context m = context m') := by
  intro contexts x hx
  have h := history_run c es
  rw [← arrivals_moments c {} es] at given
  obtain ⟨⟨first, hfirst, hheaders⟩, harrived, hfit⟩ := h.sent hx
  have hmember : first ∈ x.2 := List.mem_of_mem_head? hfirst
  have hcarried : ∀ m ∈ carried x, m ∈ x.2 := by
    intro m hm
    obtain ⟨i, _, hi⟩ := List.mem_filterMap.mp hm
    exact List.mem_of_getElem? hi
  have hown : ∀ p ∈ x.2, ∃ own, contexts[context p]? = some own ∧
      own.settled = some p.item.caller.state ∧ p.item.caller.headers = own.headers ∧
      p.item.caller.state.headers = own.headers.comparable := fun p hp =>
    Registry.caller_of_run fixed (given p (harrived p hp))
  -- equal tokens, one context
  have hsame : c.settings.strategy = .byCaller → ∀ p ∈ x.2, ∀ q ∈ x.2, context p = context q := by
    intro hby p hp q hq
    obtain ⟨a, ha, has, _⟩ := hown p hp
    obtain ⟨b, hb, hbs, _⟩ := hown q hq
    have htoken := hfit p hp q hq
    rw [hby] at htoken
    exact (Registry.run_sound (Registry.sound_empty 1) fixed).distinct _ _ a b _ _ ha hb has hbs
      htoken
  obtain ⟨sender, hsender, _, hsent, hcomparable⟩ := hown first hmember
  refine ⟨⟨first, hfirst, hheaders⟩, fun m hm => ⟨?_, fun hby m' hm' => ?_⟩⟩
  · obtain ⟨own, hcontext, _, hm', hmc⟩ := hown m (hcarried m hm)
    refine ⟨own, hcontext, hm', ?_⟩
    rw [hheaders, hsent]
    rcases guarded with hby | hby
    · rw [hsame hby first hmember m (hcarried m hm), hcontext] at hsender
      rw [Option.some.inj hsender]
    · have hfits := hfit first hmember m (hcarried m hm)
      rw [hby] at hfits
      rw [← hcomparable, ← hmc]
      exact hfits
  · exact hsame hby m (hcarried m hm) m' (hcarried m' hm')

/-- one call for two callers whose headers differ in letter case, and all digests are equal -/
theorem calls_isolated_collision :
    let hash (_ : List UInt8) : List UInt8 := []
    let changes : List Registry.Event := [.enter, .withHeader 0 "Authorization" "a", .enter,
      .withHeader 1 "authorization" "a", .ask 0, .ask 1]
    let contexts := (Registry.run hash {} changes).contexts
    let caller (k : Nat) : Caller := ((contexts.getD k {}).caller hash 3).1
    let c : Scheduler := ⟨⟨"accounts", "http://accounts", none, .array, 0⟩,
      ⟨.byHeaders, .array, 50, 2, 20⟩⟩
    let p (k : Nat) : Pending := ⟨k, { request := default, caller := caller k }, 0⟩
    let es : List Event := [.execute 0 .silent (p 0), .execute 0 .silent (p 1),
      .scheduled (.take 0), .scheduled (.serve 0 .silent)]
    Registry.Fixed hash {} changes ∧
      (∀ q ∈ es.flatMap Event.arrivals,
        Registry.Gives hash (Registry.run hash {} (changes.take 6)) q.ticket q.item.caller) ∧
      ∃ x ∈ calls (run (.batched c) {} es).2, (carried x).map (·.ticket) = [0, 1] ∧
        ∀ m ∈ carried x, ∃ own, contexts[m.ticket]? = some own ∧
          x.1.headers.comparable = own.headers.comparable := by
  intro hash changes contexts caller c p es
  have fixed : Registry.Fixed hash {} changes := by
    refine ⟨?_, ?_, ?_, ?_, ?_, ?_, trivial⟩
    all_goals
      intro i context hi hc
      cases hi
    · cases hc
      rfl
    · cases hc
      rfl
  have given : ∀ q ∈ es.flatMap Event.arrivals,
      Registry.Gives hash (Registry.run hash {} (changes.take 6)) q.ticket q.item.caller := by
    intro q hq
    rcases List.mem_cons.mp hq with rfl | hq
    · exact ⟨_, rfl, rfl, rfl⟩
    · rw [List.mem_singleton.mp hq]
      exact ⟨_, rfl, rfl, rfl⟩
  have one : ∃ x, calls (run (.batched c) {} es).2 = [x] ∧ (carried x).map (·.ticket) = [0, 1] :=
    ⟨_, rfl, rfl⟩
  obtain ⟨x, hx, hboth⟩ := one
  have hmem : x ∈ calls (run (.batched c) {} es).2 := by
    rw [hx]
    exact List.mem_singleton_self x
  have hall :=
    calls_isolated hash changes fixed c es (·.ticket) (fun _ => 6) given (Or.inr rfl) x hmem
  refine ⟨fixed, given, x, hmem, hboth, fun m hm => ?_⟩
  obtain ⟨own, hown, _, hheaders⟩ := (hall.2 m hm).1
  exact ⟨own, hown, hheaders⟩

end Lane

end Coalesce
