import Mathlib.Data.List.Basic

/-!
# Systems on a clock

* `stamped`, `stampedAll`  what is read off entries, at their readings of the clock;
* `replay`                 what entries bring, one after the other;
* `Clockwork`              a system whose events happen at readings of a clock, which goes on only
                           when the system lets it;
* `Clockwork.Run`          what happened up to a reading, and where that led;
* `Clockwork.Run.split`    a run falls into parts;
* `Clockwork.Run.replayed` a part of the state that is led by what is read off a run, and what that
                           brings.
-/

namespace Coalesce

/-! ## readings -/

section
variable {α β : Type}

/-- what is read off entries, if anything, at their readings -/
def stamped (f : α → Option β) (past : List (Nat × α)) : List (Nat × β) :=
  past.filterMap fun x => (f x.2).map (x.1, ·)

/-- all that is read off entries, at their readings -/
def stampedAll (f : α → List β) (past : List (Nat × α)) : List (Nat × β) :=
  past.flatMap fun x => (f x.2).map (x.1, ·)

theorem stamped_snoc (f : α → Option β) (past : List (Nat × α)) (t : Nat) (a : α) :
    stamped f (past ++ [(t, a)]) = stamped f past ++ (f a).toList.map (t, ·) := by
  unfold stamped
  rw [List.filterMap_append]
  cases h : f a with
  | none => simp [h]
  | some b => simp [h]

theorem stampedAll_snoc (f : α → List β) (past : List (Nat × α)) (t : Nat) (a : α) :
    stampedAll f (past ++ [(t, a)]) = stampedAll f past ++ (f a).map (t, ·) := by
  unfold stampedAll
  rw [List.flatMap_append, List.flatMap_singleton]

theorem mem_stamped {f : α → Option β} {past : List (Nat × α)} {t : Nat} {b : β} :
    (t, b) ∈ stamped f past ↔ ∃ a, (t, a) ∈ past ∧ f a = some b := by
  unfold stamped
  rw [List.mem_filterMap]
  constructor
  · rintro ⟨⟨u, a⟩, ha, hb⟩
    obtain ⟨b', hb', hpair⟩ := Option.map_eq_some_iff.mp hb
    cases hpair
    exact ⟨a, ha, hb'⟩
  · rintro ⟨a, ha, hb⟩
    exact ⟨(t, a), ha, by rw [hb]; rfl⟩

theorem mem_stampedAll {f : α → List β} {past : List (Nat × α)} {t : Nat} {b : β} :
    (t, b) ∈ stampedAll f past ↔ ∃ a, (t, a) ∈ past ∧ b ∈ f a := by
  unfold stampedAll
  rw [List.mem_flatMap]
  constructor
  · rintro ⟨⟨u, a⟩, ha, hb⟩
    obtain ⟨b', hb', hpair⟩ := List.mem_map.mp hb
    cases hpair
    exact ⟨a, ha, hb'⟩
  · rintro ⟨a, ha, hb⟩
    exact ⟨(t, a), ha, List.mem_map_of_mem hb⟩

theorem stamped_stamped {γ : Type} (g : β → Option γ) (f : α → Option β) (past : List (Nat × α)) :
    stamped g (stamped f past) = stamped (fun a => (f a).bind g) past := by
  unfold stamped
  rw [List.filterMap_filterMap]
  refine List.filterMap_congr fun x _ => ?_
  dsimp only
  cases f x.2 <;> rfl

theorem stamped_sorted {f : α → Option β} {past : List (Nat × α)}
    (h : past.Pairwise fun x y => x.1 ≤ y.1) : (stamped f past).Pairwise fun x y => x.1 ≤ y.1 := by
  refine h.filterMap _ fun x y hxy a ha b hb => ?_
  obtain ⟨_, _, rfl⟩ := Option.map_eq_some_iff.mp ha
  obtain ⟨_, _, rfl⟩ := Option.map_eq_some_iff.mp hb
  exact hxy

/-- What is read off a list falls into parts as the list does. -/
theorem stamped_split {f : α → Option β} {past : List (Nat × α)} {before after : List (Nat × β)}
    {t : Nat} {b : β} (h : stamped f past = before ++ (t, b) :: after) :
    ∃ first a rest, past = first ++ (t, a) :: rest ∧ stamped f first = before ∧ f a = some b := by
  obtain ⟨first, second, rfl, hfirst, hsecond⟩ := List.filterMap_eq_append_iff.mp h
  obtain ⟨skipped, ⟨u, a⟩, rest, rfl, hskipped, ha, _⟩ := List.filterMap_eq_cons_iff.mp hsecond
  obtain ⟨b', hb', hpair⟩ := Option.map_eq_some_iff.mp ha
  cases hpair
  refine ⟨first ++ skipped, a, rest, by rw [List.append_assoc], ?_, hb'⟩
  unfold stamped
  rw [List.filterMap_append, hfirst, List.filterMap_eq_nil_iff.mpr hskipped, List.append_nil]

end

/-! ## replaying -/

section
variable {α β σ : Type} (next : σ → α → σ) (out : σ → Nat → α → List β)

/-- where entries lead to -/
def after (s : σ) (l : List (Nat × α)) : σ := l.foldl (fun s x => next s x.2) s

/-- what entries bring, each at its reading -/
def replay (s : σ) : List (Nat × α) → List (Nat × β)
  | [] => []
  | (t, a) :: rest => (out s t a).map (t, ·) ++ replay (next s a) rest

theorem after_snoc (s : σ) (l : List (Nat × α)) (t : Nat) (a : α) :
    after next s (l ++ [(t, a)]) = next (after next s l) a := List.foldl_append ..

theorem replay_snoc (s : σ) (l : List (Nat × α)) (t : Nat) (a : α) :
    replay next out s (l ++ [(t, a)])
      = replay next out s l ++ (out (after next s l) t a).map (t, ·) := by
  induction l generalizing s with
  | nil => exact List.append_nil _
  | cons x rest ih =>
    show _ ++ replay next out (next s x.2) (rest ++ [(t, a)]) = (_ ++ _) ++ _
    rw [ih, ← List.append_assoc]
    rfl

end

/-! ## runs -/

/-- A system on a clock, with what is kept of its events. -/
structure Clockwork (σ ε μ : Type) where
  start : σ
  step : σ → ε → σ
  moment : σ → ε → μ
  /-- an event may happen at a reading -/
  fits : Nat → σ → ε → Prop
  /-- the clock may go on to a reading -/
  waits : Nat → σ → Prop

namespace Clockwork

/-- What happened up to a reading of the clock, and where that led. -/
inductive Run {σ ε μ : Type} (k : Clockwork σ ε μ) : List (Nat × μ) → Nat → σ → Prop where
  | start : Run k [] 0 k.start
  | next {past : List (Nat × μ)} {t : Nat} {s : σ} (h : Run k past t s) (e : ε)
      (fits : k.fits t s e) : Run k (past ++ [(t, k.moment s e)]) t (k.step s e)
  | tick {past : List (Nat × μ)} {t : Nat} {s : σ} (h : Run k past t s) (t' : Nat) (later : t ≤ t')
      (waits : k.waits t' s) : Run k past t' s

section
variable {σ ε μ : Type} {k : Clockwork σ ε μ} {past : List (Nat × μ)} {t : Nat} {s : σ}

theorem Run.le (h : k.Run past t s) : ∀ x ∈ past, x.1 ≤ t := by
  induction h with
  | start => exact fun x hx => absurd hx List.not_mem_nil
  | next h e fits ih =>
    intro x hx
    rcases List.mem_append.mp hx with hx | hx
    · exact ih x hx
    · exact Nat.le_of_eq (congrArg Prod.fst (List.mem_singleton.mp hx))
  | tick h t' later waits ih => exact fun x hx => Nat.le_trans (ih x hx) later

theorem Run.sorted (h : k.Run past t s) : past.Pairwise fun x y => x.1 ≤ y.1 := by
  induction h with
  | start => exact .nil
  | next h e fits ih =>
    refine List.pairwise_append.mpr ⟨ih, List.pairwise_singleton _ _, fun x hx y hy => ?_⟩
    rw [List.mem_singleton.mp hy]
    exact h.le x hx
  | tick h t' later waits ih => exact ih

/-- A run falls into what came before a moment, this moment, and what came after it. -/
theorem Run.split {first rest : List (Nat × μ)} {u : Nat} {m : μ}
    (h : k.Run (first ++ (u, m) :: rest) t s) :
    ∃ s' e, m = k.moment s' e ∧ k.Run first u s' ∧ k.fits u s' e := by
  generalize hall : first ++ (u, m) :: rest = all at h
  induction h generalizing rest with
  | start => exact absurd hall (List.append_ne_nil_of_right_ne_nil _ (List.cons_ne_nil _ _))
  | @next past t s h e fits ih =>
    rcases List.eq_nil_or_concat rest with rfl | ⟨rest', last, rfl⟩
    · obtain ⟨rfl, hm⟩ := List.append_inj' hall rfl
      cases hm
      exact ⟨s, e, rfl, h, fits⟩
    · rw [List.concat_eq_append, ← List.cons_append, ← List.append_assoc] at hall
      exact ih (List.append_inj' hall rfl).1
  | tick h t' later waits ih => exact ih hall

/-- What came before a moment is a run, and led to where its event happened. -/
theorem Run.at_moment (h : k.Run past t s) {u : Nat} {m : μ} (hm : (u, m) ∈ past) :
    ∃ first rest s' e, past = first ++ (u, m) :: rest ∧ m = k.moment s' e ∧ k.Run first u s' ∧
      k.fits u s' e := by
  obtain ⟨first, rest, rfl⟩ := List.append_of_mem hm
  obtain ⟨s', e, hmoment, hrun, hfits⟩ := h.split
  exact ⟨first, rest, s', e, rfl, hmoment, hrun, hfits⟩

/-- The clock has gone on since all that happened, so that it was free to. -/
theorem Run.waits_or_start (h : k.Run past t s) (ended : ∀ x ∈ past, x.1 < t) :
    s = k.start ∨ k.waits t s := by
  cases h with
  | start => exact Or.inl rfl
  | next h e fits =>
    exact absurd (ended _ (List.mem_append_right _ (List.mem_singleton_self _))) (Nat.lt_irrefl _)
  | tick h t' later waits => exact Or.inr waits

theorem Run.replayed {α β τ : Type} (read : μ → Option α) (view : σ → τ) (next : τ → α → τ)
    (out : τ → Nat → α → List β) (brings : μ → List β)
    (moves : ∀ s e, view (k.step s e) = (read (k.moment s e)).elim (view s) (next (view s)))
    (tells : ∀ t s e, k.fits t s e →
      brings (k.moment s e) = (read (k.moment s e)).elim [] (out (view s) t))
    (h : k.Run past t s) : after next (view k.start) (stamped read past) = view s ∧
      replay next out (view k.start) (stamped read past) = stampedAll brings past := by
  induction h with
  | start => exact ⟨rfl, rfl⟩
  | @next past t s h e fits ih =>
    obtain ⟨hview, hbrings⟩ := ih
    rw [stamped_snoc, stampedAll_snoc, tells t s e fits, moves s e]
    cases read (k.moment s e) with
    | none =>
      rw [Option.toList_none, List.map_nil, List.append_nil]
      exact ⟨hview, hbrings.trans (List.append_nil _).symm⟩
    | some a =>
      rw [Option.toList_some, List.map_singleton, after_snoc, replay_snoc, hview, hbrings]
      exact ⟨rfl, rfl⟩
  | tick h t' later waits ih => exact ih

end

end Clockwork

end Coalesce
