import Coalesce.Registry
import Mathlib.Data.List.Basic

/-!
# Contexts and their states

* `Registry.Fixed`         no headers are set once the state of their context is settled;
* `Registry.Numbered`      no two settled states have one token, even if headers are set late;
* `Registry.Sound`         beside that, each has the comparable headers of its context;
* `Registry.run_keeps`     a settled state stays, and so do the headers of its context;
* `Registry.state_of_run`, `Registry.digest_of_run`
                           callers of one context have one state, and its digest is computed from
                           its headers, even if headers are set late;
* `Registry.caller_of_run` what a caller that was taken from a registry has to do with its context.

Nothing is asked of the hash.
-/

namespace Coalesce

namespace Registry

/-- the context whose headers are set -/
def Event.sets? : Event → Option Nat
  | .withHeaders context _ | .withHeader context _ _ => some context
  | _ => none

/-- An event sets no headers of a context whose state is settled. -/
def Allows (r : Registry) (e : Event) : Prop :=
  ∀ i context, e.sets? = some i → r.contexts[i]? = some context → context.settled = none

def Fixed (hash : List UInt8 → List UInt8) (r : Registry) : List Event → Prop
  | [] => True
  | e :: rest => r.Allows e ∧ Fixed hash (r.step hash e) rest

/-- Settled states have tokens of their own. -/
structure Numbered (r : Registry) : Prop where
  below : ∀ (i : Nat) (x : Context) (s : BatchingState), r.contexts[i]? = some x →
    x.settled = some s → s.token < r.nextToken
  distinct : ∀ (i j : Nat) (x y : Context) (s t : BatchingState), r.contexts[i]? = some x →
    r.contexts[j]? = some y → x.settled = some s → y.settled = some t → s.token = t.token → i = j

/-- They are settled for the headers that their contexts have. -/
structure Sound (r : Registry) : Prop extends Numbered r where
  computed : ∀ (i : Nat) (context : Context) (s : BatchingState), r.contexts[i]? = some context →
    context.settled = some s → s.headers = context.headers.comparable

theorem numbered_empty (n : Nat) : Numbered ⟨[], n⟩ where
  below i x s h := absurd h (by simp)
  distinct i j x y s t h := absurd h (by simp)

theorem sound_empty (n : Nat) : Sound ⟨[], n⟩ where
  toNumbered := numbered_empty n
  computed i context s h := absurd h (by simp)

section
variable {hash : List UInt8 → List UInt8} {r : Registry} {e : Event}

theorem nextToken_le_step : r.nextToken ≤ (r.step hash e).nextToken := by
  cases e with
  | ask i =>
    unfold step
    dsimp only
    split
    · unfold Context.batchingState
      split
      · exact Nat.le_refl _
      · exact Nat.le_succ _
    · exact Nat.le_refl _
  | _ => exact Nat.le_refl _

/-- what an event does to the context with some number -/
def Event.apply (hash : List UInt8 → List UInt8) (nextToken : Nat) (e : Event) (k : Nat)
    (context : Context) : Context :=
  match e with
  | .enter => context
  | .withHeaders i headers => if i = k then context.withHeaders headers else context
  | .withHeader i name value => if i = k then context.withHeader name value else context
  | .withDeadline i deadline => if i = k then context.withDeadline deadline else context
  | .ask i => if i = k then (context.batchingState hash nextToken).2.1 else context

theorem modify_eq (contexts : List Context) (i k : Nat) (f : Context → Context) :
    (contexts.modify i f)[k]? = contexts[k]?.map fun c => if i = k then f c else c :=
  List.getElem?_modify ..

/-- A context is the one before, with what the event does to it, or a new one. -/
theorem step_getElem? (hash : List UInt8 → List UInt8) (r : Registry) (e : Event) (k : Nat) :
    (r.step hash e).contexts[k]? = r.contexts[k]?.map (e.apply hash r.nextToken k) ∨
      r.contexts[k]? = none ∧ (r.step hash e).contexts[k]? = some {} := by
  cases e with
  | enter =>
    show (r.contexts ++ [({} : Context)])[k]? = _ ∨ _ ∧ (r.contexts ++ [({} : Context)])[k]? = _
    rw [List.getElem?_append]
    by_cases hk : k < r.contexts.length
    · rw [if_pos hk]
      exact Or.inl Option.map_id'.symm
    · have hnone : r.contexts[k]? = none := List.getElem?_eq_none (by omega)
      rw [if_neg hk, List.getElem?_singleton, hnone]
      split
      · exact Or.inr ⟨rfl, rfl⟩
      · exact Or.inl rfl
  | withHeaders i headers => exact Or.inl (modify_eq _ _ _ _)
  | withHeader i name value => exact Or.inl (modify_eq _ _ _ _)
  | withDeadline i deadline => exact Or.inl (modify_eq _ _ _ _)
  | ask i =>
    refine Or.inl ?_
    unfold step
    dsimp only
    cases hi : r.contexts[i]? with
    | none =>
      show r.contexts[k]? = r.contexts[k]?.map fun c => if i = k then _ else c
      by_cases hik : i = k
      · subst hik
        rw [hi]
        rfl
      · simp only [if_neg hik]
        exact Option.map_id'.symm
    | some context =>
      show (r.contexts.set i (context.batchingState hash r.nextToken).2.1)[k]?
        = r.contexts[k]?.map fun c => if i = k then (c.batchingState hash r.nextToken).2.1 else c
      rw [List.getElem?_set]
      by_cases hik : i = k
      · subst hik
        rw [if_pos rfl, if_pos (List.getElem?_eq_some_iff.mp hi).1, hi]
        exact congrArg some (if_pos rfl).symm
      · simp only [if_neg hik]
        exact Option.map_id'.symm

/-- nothing that is allowed touches a settled state, or the headers beside it -/
theorem apply_keeps (hash : List UInt8 → List UInt8) (n : Nat) {k : Nat} {context : Context}
    {s : BatchingState}
    (hs : context.settled = some s) (hallows : e.sets? = some k → context.settled = none) :
    (e.apply hash n k context).settled = some s ∧
      (e.apply hash n k context).headers = context.headers := by
  have untouched : e.sets? ≠ some k := fun h => by
    rw [hallows h] at hs
    cases hs
  unfold Event.apply
  cases e with
  | enter => exact ⟨hs, rfl⟩
  | withHeaders i headers =>
    have hik : ¬ i = k := fun h => untouched (congrArg some h)
    dsimp only
    rw [if_neg hik]
    exact ⟨hs, rfl⟩
  | withHeader i name value =>
    have hik : ¬ i = k := fun h => untouched (congrArg some h)
    dsimp only
    rw [if_neg hik]
    exact ⟨hs, rfl⟩
  | withDeadline i deadline =>
    dsimp only
    split
    · exact ⟨hs, rfl⟩
    · exact ⟨hs, rfl⟩
  | ask i =>
    dsimp only
    split
    · unfold Context.batchingState
      rw [hs]
      exact ⟨hs, rfl⟩
    · exact ⟨hs, rfl⟩

/-- a state is settled when it is asked for, and from the headers that are there -/
theorem apply_settles {n k : Nat} {context : Context} {s : BatchingState}
    (hnone : context.settled = none) (hs : (e.apply hash n k context).settled = some s) :
    e = .ask k ∧ s = .compute hash n context.headers ∧
      (e.apply hash n k context).headers = context.headers := by
  unfold Event.apply at hs ⊢
  cases e with
  | enter =>
    rw [hnone] at hs
    cases hs
  | withHeaders i headers =>
    dsimp only at hs
    split at hs <;> exact absurd (hnone.symm.trans hs) (by simp)
  | withHeader i name value =>
    dsimp only at hs
    split at hs <;> exact absurd (hnone.symm.trans hs) (by simp)
  | withDeadline i deadline =>
    dsimp only at hs
    split at hs <;> exact absurd (hnone.symm.trans hs) (by simp)
  | ask i =>
    dsimp only at hs ⊢
    split at hs
    · rename_i hik
      subst hik
      unfold Context.batchingState at hs ⊢
      rw [hnone] at hs
      rw [if_pos rfl, hnone]
      cases hs
      exact ⟨rfl, rfl, rfl⟩
    · rw [hnone] at hs
      cases hs

/-- once a state is settled, nothing unsettles it -/
theorem apply_settled (hash : List UInt8 → List UInt8) (n k : Nat) {context : Context}
    {s : BatchingState} (hs : context.settled = some s) :
    (e.apply hash n k context).settled = some s := by
  unfold Event.apply
  cases e with
  | enter => exact hs
  | withHeaders i headers =>
    dsimp only
    split <;> exact hs
  | withHeader i name value =>
    dsimp only
    split <;> exact hs
  | withDeadline i deadline =>
    dsimp only
    split <;> exact hs
  | ask i =>
    dsimp only
    split
    · unfold Context.batchingState
      rw [hs]
      exact hs
    · exact hs

theorem nextToken_ask {k : Nat} {context : Context} (hk : r.contexts[k]? = some context)
    (hnone : context.settled = none) : (r.step hash (.ask k)).nextToken = r.nextToken + 1 := by
  unfold step
  dsimp only
  rw [hk]
  dsimp only
  unfold Context.batchingState
  rw [hnone]

/-- A settled state was there before, or is settled now. -/
theorem settled_from {k : Nat} {x' : Context} {s : BatchingState}
    (h : (r.step hash e).contexts[k]? = some x') (hs : x'.settled = some s) :
    (∃ x, r.contexts[k]? = some x ∧ x.settled = some s) ∨
    (e = .ask k ∧ s.token = r.nextToken ∧ (r.step hash e).nextToken = r.nextToken + 1) := by
  obtain hstep | ⟨_, hstep⟩ := step_getElem? hash r e k
  · rw [h] at hstep
    obtain ⟨x, hk, rfl⟩ := Option.map_eq_some_iff.mp hstep.symm
    cases hold : x.settled with
    | some t =>
      rw [apply_settled hash r.nextToken k hold] at hs
      exact Or.inl ⟨x, hk, hold.trans hs⟩
    | none =>
      obtain ⟨rfl, rfl, _⟩ := apply_settles hold hs
      exact Or.inr ⟨rfl, rfl, nextToken_ask hk hold⟩
  · rw [h] at hstep
    cases hstep
    cases hs

theorem Numbered.step (h : r.Numbered) : (r.step hash e).Numbered where
  below i x s hi hs := by
    obtain ⟨old, hold, hsettled⟩ | ⟨_, htoken, hnext⟩ := settled_from hi hs
    · exact Nat.lt_of_lt_of_le (h.below i old s hold hsettled) nextToken_le_step
    · rw [htoken, hnext]
      exact Nat.lt_succ_self _
  distinct i j x y s t hi hj hs ht hst := by
    obtain ⟨x', hx, hxs⟩ | ⟨he, hnew, _⟩ := settled_from hi hs <;>
      obtain ⟨y', hy, hyt⟩ | ⟨he', hnew', _⟩ := settled_from hj ht
    · exact h.distinct i j x' y' s t hx hy hxs hyt hst
    · have := h.below i x' s hx hxs
      omega
    · have := h.below j y' t hy hyt
      omega
    · rw [he] at he'
      cases he'
      rfl

/-- Where a settled state comes from: it was there, beside the same headers, or is settled now. -/
theorem settled_step (hallows : r.Allows e) {k : Nat} {context' : Context} {s : BatchingState}
    (h : (r.step hash e).contexts[k]? = some context') (hs : context'.settled = some s) :
    (∃ context, r.contexts[k]? = some context ∧ context.settled = some s ∧
      context'.headers = context.headers) ∨
    s = .compute hash r.nextToken context'.headers := by
  obtain hstep | ⟨_, hstep⟩ := step_getElem? hash r e k
  · rw [h] at hstep
    obtain ⟨context, hk, rfl⟩ := Option.map_eq_some_iff.mp hstep.symm
    cases hold : context.settled with
    | some t =>
      obtain ⟨hsame, hheaders⟩ := apply_keeps hash r.nextToken hold fun hsets =>
        hallows k context hsets hk
      rw [hsame] at hs
      exact Or.inl ⟨context, hk, hold.trans hs, hheaders⟩
    | none =>
      obtain ⟨_, rfl, hheaders⟩ := apply_settles hold hs
      rw [hheaders]
      exact Or.inr rfl
  · rw [h] at hstep
    cases hstep
    cases hs

/-- An event that is allowed keeps a registry sound. -/
theorem Sound.step (hsound : r.Sound) (hallows : r.Allows e) : (r.step hash e).Sound where
  toNumbered := hsound.toNumbered.step
  computed i context s hi hs := by
    obtain ⟨old, hold, hsettled, hheaders⟩ | rfl := settled_step hallows hi hs
    · rw [hheaders]
      exact hsound.computed i old s hold hsettled
    · rfl

/-- A settled state stays, and so do the headers of its context. -/
theorem step_keeps (hallows : r.Allows e) {k : Nat} {context : Context} {s : BatchingState}
    (hk : r.contexts[k]? = some context) (hs : context.settled = some s) :
    ∃ context', (r.step hash e).contexts[k]? = some context' ∧ context'.settled = some s ∧
      context'.headers = context.headers := by
  obtain hstep | ⟨hnone, _⟩ := step_getElem? hash r e k
  · rw [hk] at hstep
    exact ⟨_, hstep, apply_keeps hash _ hs fun hsets => hallows k context hsets hk⟩
  · rw [hk] at hnone
    cases hnone

end

/-! ## runs -/

theorem fixed_append {hash : List UInt8 → List UInt8} {r : Registry} {first second : List Event}
    (h : Fixed hash r (first ++ second)) :
    Fixed hash r first ∧ Fixed hash (run hash r first) second := by
  induction first generalizing r with
  | nil => exact ⟨trivial, h⟩
  | cons e rest ih =>
    obtain ⟨hfirst, hsecond⟩ := ih h.2
    exact ⟨⟨h.1, hfirst⟩, hsecond⟩

theorem run_sound {hash : List UInt8 → List UInt8} {r : Registry} {es : List Event}
    (hsound : r.Sound) (hfixed : Fixed hash r es) : (run hash r es).Sound := by
  induction es generalizing r with
  | nil => exact hsound
  | cons e rest ih => exact ih (hsound.step hfixed.1) hfixed.2

theorem Numbered.run {hash : List UInt8 → List UInt8} {r : Registry} (h : r.Numbered)
    (es : List Event) : (Registry.run hash r es).Numbered := by
  induction es generalizing r with
  | nil => exact h
  | cons e rest ih => exact ih h.step

theorem run_keeps {hash : List UInt8 → List UInt8} {r : Registry} {es : List Event}
    (hfixed : Fixed hash r es) {k : Nat} {context : Context} {s : BatchingState}
    (hk : r.contexts[k]? = some context) (hs : context.settled = some s) :
    ∃ context', (run hash r es).contexts[k]? = some context' ∧ context'.settled = some s ∧
      context'.headers = context.headers := by
  induction es generalizing r context with
  | nil => exact ⟨context, hk, hs, rfl⟩
  | cons e rest ih =>
    obtain ⟨next, hnext, hsettled, hheaders⟩ := step_keeps hfixed.1 hk hs
    obtain ⟨last, hlast, hsettled', hheaders'⟩ := ih hfixed.2 hnext hsettled
    exact ⟨last, hlast, hsettled', hheaders'.trans hheaders⟩

/-! ## states, whatever happens to headers -/

section
variable {hash : List UInt8 → List UInt8} {r : Registry} {e : Event}

theorem step_settled {k : Nat} {context : Context} {s : BatchingState}
    (hk : r.contexts[k]? = some context) (hs : context.settled = some s) :
    ∃ context', (r.step hash e).contexts[k]? = some context' ∧ context'.settled = some s := by
  obtain hstep | ⟨hnone, _⟩ := step_getElem? hash r e k
  · rw [hk] at hstep
    exact ⟨_, hstep, apply_settled hash _ k hs⟩
  · rw [hk] at hnone
    cases hnone

theorem run_settled {es : List Event} {k : Nat} {context : Context} {s : BatchingState}
    (hk : r.contexts[k]? = some context) (hs : context.settled = some s) :
    ∃ context', (run hash r es).contexts[k]? = some context' ∧ context'.settled = some s := by
  induction es generalizing r context with
  | nil => exact ⟨context, hk, hs⟩
  | cons e rest ih =>
    obtain ⟨next, hnext, hsettled⟩ := step_settled hk hs
    exact ih hnext hsettled

/-- Digests are those of the headers beside them. -/
def Digested (hash : List UInt8 → List UInt8) (r : Registry) : Prop :=
  ∀ (k : Nat) (context : Context) (s : BatchingState), r.contexts[k]? = some context →
    context.settled = some s → s.digest = .of hash s.headers

theorem Digested.step (h : r.Digested hash) : (r.step hash e).Digested hash := by
  intro k context s hk hs
  obtain hstep | ⟨_, hstep⟩ := step_getElem? hash r e k
  · rw [hk] at hstep
    obtain ⟨old, hold, rfl⟩ := Option.map_eq_some_iff.mp hstep.symm
    cases hsettled : old.settled with
    | some t =>
      rw [apply_settled hash _ k hsettled] at hs
      cases hs
      exact h k old _ hold hsettled
    | none =>
      obtain ⟨_, rfl, _⟩ := apply_settles hsettled hs
      rfl
  · rw [hk] at hstep
    cases hstep
    cases hs

theorem Digested.run (h : r.Digested hash) (es : List Event) :
    (Registry.run hash r es).Digested hash := by
  induction es generalizing r with
  | nil => exact h
  | cons e rest ih => exact ih h.step

end

/-! ## callers -/

/-- A caller is that of the context with some number, whose state is settled. -/
def Gives (hash : List UInt8 → List UInt8) (r : Registry) (k : Nat) (caller : Caller) : Prop :=
  ∃ context, r.contexts[k]? = some context ∧ context.settled.isSome ∧
    caller = (context.caller hash r.nextToken).1

theorem Gives.state {hash : List UInt8 → List UInt8} {r : Registry} {k : Nat} {caller : Caller}
    (h : Gives hash r k caller) :
    ∃ context, r.contexts[k]? = some context ∧ context.settled = some caller.state := by
  obtain ⟨context, hk, hsettled, rfl⟩ := h
  obtain ⟨s, hs⟩ := Option.isSome_iff_exists.mp hsettled
  refine ⟨context, hk, ?_⟩
  unfold Context.caller Context.batchingState
  rw [hs]

theorem run_take (hash : List UInt8 → List UInt8) (es : List Event) (n : Nat) :
    run hash {} es = run hash (run hash {} (es.take n)) (es.drop n) := by
  rw [← run_append, List.take_append_drop]

/-- A context keeps the state that its callers were given. -/
theorem Gives.last {hash : List UInt8 → List UInt8} {es : List Event} {n k : Nat} {caller : Caller}
    (h : Gives hash (run hash {} (es.take n)) k caller) :
    ∃ context, (run hash {} es).contexts[k]? = some context ∧
      context.settled = some caller.state := by
  obtain ⟨context, hk, hs⟩ := h.state
  rw [run_take hash es n]
  exact run_settled hk hs

/-- Callers that were taken from one context, at any times, have one state. -/
theorem state_of_run {hash : List UInt8 → List UInt8} {es : List Event} {n m k : Nat}
    {first second : Caller} (hfirst : Gives hash (run hash {} (es.take n)) k first)
    (hsecond : Gives hash (run hash {} (es.take m)) k second) : first.state = second.state := by
  obtain ⟨a, ha, has⟩ := hfirst.last
  obtain ⟨b, hb, hbs⟩ := hsecond.last
  rw [ha] at hb
  cases hb
  exact Option.some.inj (has.symm.trans hbs)

theorem digest_of_run {hash : List UInt8 → List UInt8} {es : List Event} {n k : Nat}
    {caller : Caller} (h : Gives hash (run hash {} (es.take n)) k caller) :
    caller.state.digest = .of hash caller.state.headers := by
  obtain ⟨context, hk, hs⟩ := h.state
  have hempty : Digested hash ({} : Registry) := fun k context s hk => absurd hk (by simp)
  exact hempty.run (es.take n) k context caller.state hk hs

/-- What a caller that was taken at any time has to do with its context in the end. -/
theorem caller_of_run {hash : List UInt8 → List UInt8} {es : List Event}
    (hfixed : Fixed hash {} es) {n k : Nat} {caller : Caller}
    (h : Gives hash (run hash {} (es.take n)) k caller) :
    ∃ context, (run hash {} es).contexts[k]? = some context ∧
      context.settled = some caller.state ∧ caller.headers = context.headers ∧
      caller.state.headers = context.headers.comparable := by
  obtain ⟨old, hk, hsettled, rfl⟩ := h
  obtain ⟨s, hs⟩ := Option.isSome_iff_exists.mp hsettled
  have hcaller : (old.caller hash (run hash {} (es.take n)).nextToken).1
      = ⟨old.headers, old.deadline, s⟩ := by
    unfold Context.caller Context.batchingState
    rw [hs]
  have hsplit : Fixed hash {} (es.take n ++ es.drop n) := by
    rw [List.take_append_drop]
    exact hfixed
  obtain ⟨hfirst, hsecond⟩ := fixed_append hsplit
  obtain ⟨context, hlast, hsame, hheaders⟩ := run_keeps hsecond hk hs
  rw [hcaller, run_take hash es n]
  refine ⟨context, hlast, hsame, hheaders.symm, ?_⟩
  rw [hheaders]
  exact (run_sound (sound_empty 1) hfirst).computed k old s hk hs

end Registry

end Coalesce
