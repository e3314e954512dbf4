import Coalesce.Proofs.Batch.Renaming
import Coalesce.Proofs.Registry
import Mathlib.Algebra.Order.BigOperators.Group.List
import Mathlib.Algebra.Order.Group.Nat

/-!
# Contexts that are lent out

* `Registry.Lends`         a request has the caller of a context that was handed over before, and is
                           not changed any more;
* `Registry.Lends.later`   such a caller is told by the context as it was handed over, but for a
                           token;
* `Registry.Lends.alike`   so callers that are lent the same context by two registries differ in
                           nothing but their tokens;
* `Registry.exists_renaming`
                           and the tokens of many of them are told apart in the same way.

A context may be handed over before its state is settled.  Then whoever asks first settles it, and
nobody can tell who that was, or how many others were asked before.
-/

namespace Coalesce

/-- the context without the number of its token -/
def Context.bare (x : Context) : Context :=
  { x with settled := x.settled.map (BatchingState.retoken fun _ => 0) }

namespace Registry

/-- Callers with one token were taken from one context. -/
theorem context_of_token {hash : List UInt8 → List UInt8} {es : List Event} {n m k j : Nat}
    {first second : Caller} (hfirst : Gives hash (run hash {} (es.take n)) k first)
    (hsecond : Gives hash (run hash {} (es.take m)) j second)
    (same : first.state.token = second.state.token) : k = j := by
  obtain ⟨x, hk, hx⟩ := hfirst.last
  obtain ⟨y, hj, hy⟩ := hsecond.last
  exact ((numbered_empty 1).run es).distinct k j x y _ _ hk hj hx hy same

/-! ## contexts that are handed over -/

/-- the context that an event changes, but for its state -/
def Event.changes? : Event → Option Nat
  | .withHeaders k _ | .withHeader k _ _ | .withDeadline k _ => some k
  | _ => none

structure Lends (hash : List UInt8 → List UInt8) (changes : List Event) (k time : Nat) (x : Context)
    (caller : Caller) : Prop where
  given : Gives hash (run hash {} (changes.take time)) k caller
  handed : ∃ n, n ≤ time ∧ (run hash {} (changes.take n)).contexts[k]? = some x ∧
    ∀ e ∈ changes.drop n, e.changes? ≠ some k

/-- The one is the other, but its state may be settled since. -/
structure Later (hash : List UInt8 → List UInt8) (x y : Context) : Prop where
  headers : y.headers = x.headers
  deadline : y.deadline = x.deadline
  state : y.settled = x.settled ∨
    x.settled = none ∧ ∃ token, y.settled = some (.compute hash token x.headers)

section
variable {hash : List UInt8 → List UInt8}

theorem Later.apply {x y : Context} (h : Later hash x y) {e : Event} {k : Nat}
    (fixed : e.changes? ≠ some k) (n : Nat) : Later hash x (e.apply hash n k y) := by
  have other : ∀ i, Event.changes? e = some i → ¬ i = k := fun i hi hik => fixed (hik ▸ hi)
  cases e with
  | enter => exact h
  | withHeaders i headers =>
    unfold Event.apply
    dsimp only
    rw [if_neg (other i rfl)]
    exact h
  | withHeader i name value =>
    unfold Event.apply
    dsimp only
    rw [if_neg (other i rfl)]
    exact h
  | withDeadline i deadline =>
    unfold Event.apply
    dsimp only
    rw [if_neg (other i rfl)]
    exact h
  | ask i =>
    unfold Event.apply
    dsimp only
    split
    · unfold Context.batchingState
      cases hy : y.settled with
      | some s => exact h
      | none =>
        -- it is settled now, and so it was not settled before
        refine ⟨h.headers, h.deadline, Or.inr ?_⟩
        rcases h.state with hsame | ⟨_, token, hsome⟩
        · refine ⟨hsame.symm.trans hy, n, ?_⟩
          show some (BatchingState.compute hash n y.headers) = _
          rw [h.headers]
        · rw [hy] at hsome
          cases hsome
    · exact h

theorem Later.run {r : Registry} {x y : Context} (h : Later hash x y) {k : Nat}
    (hk : r.contexts[k]? = some y) (es : List Event) (fixed : ∀ e ∈ es, e.changes? ≠ some k) :
    ∃ z, (run hash r es).contexts[k]? = some z ∧ Later hash x z := by
  induction es generalizing r y with
  | nil => exact ⟨y, hk, h⟩
  | cons e rest ih =>
    have hrest : ∀ e ∈ rest, e.changes? ≠ some k := fun e he => fixed e (List.mem_cons_of_mem _ he)
    obtain hstep | ⟨hnone, _⟩ := step_getElem? hash r e k
    · rw [hk] at hstep
      exact ih (h.apply (fixed e List.mem_cons_self) r.nextToken) hstep hrest
    · rw [hk] at hnone
      cases hnone

/-- A caller has what its context was handed over with, and a state that is computed from it unless
it was settled. -/
theorem Lends.later {changes : List Event} {k time : Nat} {x : Context} {caller : Caller}
    (h : Lends hash changes k time x caller) :
    ∃ y, Later hash x y ∧ y.settled = some caller.state ∧ caller.headers = y.headers ∧
      caller.deadline = y.deadline := by
  obtain ⟨n, hn, hk, hfixed⟩ := h.handed
  obtain ⟨y, hy, hsettled, hcaller⟩ := h.given
  obtain ⟨s, hs⟩ := Option.isSome_iff_exists.mp hsettled
  have hstart : Later hash x x := ⟨rfl, rfl, Or.inl rfl⟩
  have hsplit : changes.take time = changes.take n ++ (changes.drop n).take (time - n) := by
    rw [← List.take_add, Nat.add_sub_cancel' hn]
  obtain ⟨z, hz, hlater⟩ := hstart.run hk ((changes.drop n).take (time - n)) fun e he =>
    hfixed e (List.mem_of_mem_take he)
  rw [hsplit, run_append, hz] at hy
  cases hy
  have hgiven : caller = ⟨y.headers, y.deadline, s⟩ := by
    rw [hcaller]
    unfold Context.caller Context.batchingState
    rw [hs]
  rw [hgiven]
  exact ⟨y, hlater, hs, rfl, rfl⟩

/-- Callers that are lent the same context, by two registries, differ in their tokens alone. -/
theorem Lends.alike {changes changes' : List Event} {k k' time time' : Nat} {x x' : Context}
    {caller caller' : Caller} (h : Lends hash changes k time x caller)
    (h' : Lends hash changes' k' time' x' caller') (same : x.bare = x'.bare) {ρ : Nat → Nat}
    (token : ρ caller.state.token = caller'.state.token) : caller' = caller.retoken ρ := by
  obtain ⟨y, hy, hs, hheaders, hdeadline⟩ := h.later
  obtain ⟨y', hy', hs', hheaders', hdeadline'⟩ := h'.later
  obtain ⟨hsame, hlimit, hstate⟩ : x.headers = x'.headers ∧ x.deadline = x'.deadline ∧
      x.settled.map (BatchingState.retoken fun _ => 0)
        = x'.settled.map (BatchingState.retoken fun _ => 0) := Context.mk.inj same
  have hfields : caller.state.headers = caller'.state.headers ∧
      caller.state.digest = caller'.state.digest := by
    rcases hy.state with hold | ⟨hnone, n, hnew⟩ <;> rcases hy'.state with hold' | ⟨hnone', n', hnew'⟩
    · rw [← hold, ← hold', hs, hs'] at hstate
      obtain ⟨_, hcomparable, hdigest⟩ := BatchingState.mk.inj (Option.some.inj hstate)
      exact ⟨hcomparable, hdigest⟩
    · rw [← hold, hnone', hs] at hstate
      cases hstate
    · rw [← hold', hnone, hs'] at hstate
      cases hstate
    · rw [hs] at hnew
      rw [hs'] at hnew'
      rw [Option.some.inj hnew, Option.some.inj hnew', hsame]
      exact ⟨rfl, rfl⟩
  obtain ⟨headers, deadline, ⟨t, comparable, digest⟩⟩ := caller
  obtain ⟨headers', deadline', ⟨t', comparable', digest'⟩⟩ := caller'
  obtain ⟨hcomparable, hdigest⟩ := hfields
  dsimp only at hheaders hheaders' hdeadline hdeadline' hcomparable hdigest token
  unfold Caller.retoken BatchingState.retoken
  dsimp only
  rw [token, hcomparable, hdigest, hheaders, hheaders', hdeadline, hdeadline', hy.headers,
    hy'.headers, hy.deadline, hy'.deadline, hsame, hlimit]

end

/-! ## renamings -/

/-- Two lists of numbers that are told apart in the same way: the one is a renaming of the other. -/
theorem exists_renaming (pairs : List (Nat × Nat))
    (same : ∀ a ∈ pairs, ∀ b ∈ pairs, a.1 = b.1 ↔ a.2 = b.2) :
    ∃ ρ : Nat → Nat, Function.Injective ρ ∧ ∀ a ∈ pairs, ρ a.1 = a.2 := by
  -- other numbers are renamed beyond all that are used
  obtain ⟨bound, hbound⟩ : ∃ bound, ∀ a ∈ pairs, a.2 < bound := by
    refine ⟨(pairs.map Prod.snd).sum + 1, fun a ha => ?_⟩
    exact Nat.lt_succ_of_le (List.le_sum_of_mem (List.mem_map_of_mem ha))
  let ρ (n : Nat) : Nat := ((pairs.find? fun a => a.1 = n).map Prod.snd).getD (n + bound)
  have hfound : ∀ a ∈ pairs, ρ a.1 = a.2 := by
    intro a ha
    cases hfind : pairs.find? fun b => b.1 = a.1 with
    | none =>
      have hself := List.find?_eq_none.mp hfind a ha
      simp at hself
    | some b =>
      have hb : b.1 = a.1 := by simpa using List.find?_some hfind
      show ((pairs.find? fun b => b.1 = a.1).map Prod.snd).getD _ = a.2
      rw [hfind]
      exact (same b (List.mem_of_find?_eq_some hfind) a ha).mp hb
  have hother : ∀ n, (∀ a ∈ pairs, a.1 ≠ n) → ρ n = n + bound := by
    intro n hn
    have hnone : (pairs.find? fun a => a.1 = n) = none :=
      List.find?_eq_none.mpr fun a ha => by simpa using hn a ha
    show ((pairs.find? fun a => a.1 = n).map Prod.snd).getD _ = _
    rw [hnone]
    rfl
  refine ⟨ρ, fun n m h => ?_, hfound⟩
  by_cases hn : ∃ a ∈ pairs, a.1 = n <;> by_cases hm : ∃ b ∈ pairs, b.1 = m
  · obtain ⟨a, ha, rfl⟩ := hn
    obtain ⟨b, hb, rfl⟩ := hm
    rw [hfound a ha, hfound b hb] at h
    exact (same a ha b hb).mpr h
  · obtain ⟨a, ha, rfl⟩ := hn
    rw [hfound a ha, hother m fun b hb hbm => hm ⟨b, hb, hbm⟩] at h
    have := hbound a ha
    omega
  · obtain ⟨b, hb, rfl⟩ := hm
    rw [hfound b hb, hother n fun a ha han => hn ⟨a, ha, han⟩] at h
    have := hbound b hb
    omega
  · rw [hother n fun a ha han => hn ⟨a, ha, han⟩, hother m fun b hb hbm => hm ⟨b, hb, hbm⟩] at h
    omega

end Registry

end Coalesce
