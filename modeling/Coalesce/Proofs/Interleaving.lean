import Mathlib.Data.List.Basic

/-!
# What comes in, and what is made of it

* `Log`              entries of two kinds in their order, each at a reading of the clock: inputs,
                     which come from outside, and moves, which are made in answer;
* `Log.placed`       the inputs, each with its place among the moves that share its reading;
* `Log.Forces`       a move that is made in one log has to be made in the other;
* `Log.unique`       logs that force each other and place their inputs alike are equal;
* `Log.forces_of_moves`
                     logs with the same moves force each other.

A reading may be shared by many entries, so that readings alone do not tell which came first.
-/

namespace Coalesce

/-- entries in order, each at a reading of the clock: an input or a move -/
abbrev Log (ι μ : Type) := List (Nat × (ι ⊕ μ))

namespace Log

variable {ι μ : Type}

/-- how many moves are made at a reading -/
def movesAt (l : Log ι μ) (t : Nat) : Nat := l.countP fun x => x.1 = t && x.2.isRight

/-- The inputs behind some entries that were seen, each with its reading, and with the number of
moves before it at this reading. -/
def placedBehind (seen : Log ι μ) : Log ι μ → List (Nat × ι × Nat)
  | [] => []
  | (t, .inl i) :: rest => (t, i, movesAt seen t) :: placedBehind (seen ++ [(t, .inl i)]) rest
  | (t, .inr m) :: rest => placedBehind (seen ++ [(t, .inr m)]) rest

/-- the inputs of a whole log -/
def placed (l : Log ι μ) : List (Nat × ι × Nat) := placedBehind [] l

def moves (l : Log ι μ) : List (Nat × μ) := l.filterMap fun x => x.2.getRight?.map (x.1, ·)

/-- the clock does not go back -/
def Sorted (l : Log ι μ) : Prop := l.Pairwise fun x y => x.1 ≤ y.1

/-- Where the logs are alike so far and a move is made in the one, the same move is made in the
other, unless an input comes first there, and no later. -/
def Forces (l l' : Log ι μ) : Prop :=
  ∀ (before after : Log ι μ) (t : Nat) (m : μ), l = before ++ (t, .inr m) :: after → before <+: l' →
    (∃ after', l' = before ++ (t, .inr m) :: after') ∨
    ∃ u i after', l' = before ++ (u, .inl i) :: after' ∧ u ≤ t

/-! ## places -/

theorem movesAt_le (seen more : Log ι μ) (t : Nat) : movesAt seen t ≤ movesAt (seen ++ more) t := by
  unfold movesAt
  rw [List.countP_append]
  exact Nat.le_add_right _ _

theorem movesAt_move (seen : Log ι μ) (t : Nat) (m : μ) :
    movesAt (seen ++ [(t, .inr m)]) t = movesAt seen t + 1 := by
  unfold movesAt
  rw [List.countP_append, List.countP_singleton, if_pos (by simp)]

/-- An input behind others was placed behind the moves before them. -/
theorem mem_placedBehind {seen l : Log ι μ} {t k : Nat} {i : ι}
    (h : (t, i, k) ∈ placedBehind seen l) : (t, .inl i) ∈ l ∧ movesAt seen t ≤ k := by
  induction l generalizing seen with
  | nil => exact absurd h List.not_mem_nil
  | cons x rest ih =>
    have later : (t, i, k) ∈ placedBehind (seen ++ [x]) rest →
        (t, Sum.inl i) ∈ x :: rest ∧ movesAt seen t ≤ k := by
      intro hlater
      obtain ⟨hmem, hle⟩ := ih hlater
      exact ⟨List.mem_cons_of_mem _ hmem, Nat.le_trans (movesAt_le seen [x] t) hle⟩
    obtain ⟨u, j | m⟩ := x
    · rcases List.mem_cons.mp h with hnow | hlater
      · cases hnow
        exact ⟨List.mem_cons_self, Nat.le_refl _⟩
      · exact later hlater
    · exact later h

/-- An input does not stand behind a move in one log and before it in the other. -/
theorem not_overtaken {before rest rest' : Log ι μ} {t u : Nat} {m : μ} {i : ι}
    (sorted : Sorted (before ++ (t, .inr m) :: rest)) (early : u ≤ t)
    (same : placedBehind before ((t, .inr m) :: rest)
      = placedBehind before ((u, .inl i) :: rest')) : False := by
  have hplaced : (u, i, movesAt before u) ∈ placedBehind (before ++ [(t, .inr m)]) rest := by
    have hhead : (u, i, movesAt before u) ∈ placedBehind before ((u, .inl i) :: rest') :=
      List.mem_cons_self
    rw [← same] at hhead
    exact hhead
  obtain ⟨hmem, hle⟩ := mem_placedBehind hplaced
  have hlate : t ≤ u :=
    (List.pairwise_cons.mp (List.pairwise_append.mp sorted).2.1).1 _ hmem
  obtain rfl : t = u := Nat.le_antisymm hlate early
  rw [movesAt_move] at hle
  omega

/-- **Logs are unique.**  Two logs with the same inputs at the same places, each of which forces the
moves of the other, are equal. -/
theorem unique {l l' : Log ι μ} (sorted : Sorted l) (sorted' : Sorted l') (forces : Forces l l')
    (forces' : Forces l' l) (same : placed l = placed l') : l = l' := by
  have step : ∀ (rest before rest' : Log ι μ), l = before ++ rest → l' = before ++ rest' →
      placedBehind before rest = placedBehind before rest' → rest = rest' := by
    -- along both, behind what they have in common
    intro rest
    induction rest with
    | nil =>
      intro before rest' hl hl' hsame
      cases rest' with
      | nil => rfl
      | cons y tail' =>
        obtain ⟨u, j | m⟩ := y
        · cases hsame
        · have hbefore : before <+: l := hl ▸ List.prefix_append _ _
          rcases forces' before tail' u m hl' hbefore with ⟨after, h⟩ | ⟨v, i, after, h, _⟩
          · simpa using hl.symm.trans h
          · simpa using hl.symm.trans h
    | cons x tail ih =>
      intro before rest' hl hl' hsame
      have hbefore : before <+: l := hl ▸ List.prefix_append _ _
      have hbefore' : before <+: l' := hl' ▸ List.prefix_append _ _
      -- the next entries are the same
      have next : ∀ tail', rest' = x :: tail' →
          placedBehind (before ++ [x]) tail = placedBehind (before ++ [x]) tail' →
          x :: tail = rest' := by
        intro tail' hrest hplaced
        rw [hrest] at hl' ⊢
        rw [ih (before ++ [x]) tail' (by rw [hl, List.append_assoc]; rfl)
          (by rw [hl', List.append_assoc]; rfl) hplaced]
      obtain ⟨t, i | m⟩ := x
      · cases rest' with
        | nil => cases hsame
        | cons y tail' =>
          obtain ⟨u, j | m⟩ := y
          · obtain ⟨hhead, htail⟩ := List.cons.inj hsame
            cases hhead
            exact next tail' rfl htail
          · exfalso
            rcases forces' before tail' u m hl' hbefore with ⟨after, h⟩ | ⟨v, k, after, h, hle⟩
            · cases List.append_cancel_left (hl.symm.trans h)
            · cases List.append_cancel_left (hl.symm.trans h)
              exact not_overtaken (hl' ▸ sorted') hle hsame.symm
      · rcases forces before tail t m hl hbefore' with ⟨tail', h⟩ | ⟨u, j, tail', h, hle⟩
        · obtain rfl := List.append_cancel_left (hl'.symm.trans h)
          exact next tail' rfl hsame
        · obtain rfl := List.append_cancel_left (hl'.symm.trans h)
          exact (not_overtaken (hl ▸ sorted) hle hsame).elim
  exact step l [] l' rfl rfl same

/-- Logs with the same moves force each other. -/
theorem forces_of_moves {l l' : Log ι μ} (sorted' : Sorted l') (same : moves l = moves l') :
    Forces l l' := by
  intro before after t m hl hbefore
  obtain ⟨rest, rfl⟩ := hbefore
  have hrest : moves rest = (t, m) :: moves after := by
    rw [hl] at same
    unfold moves at same ⊢
    rw [List.filterMap_append, List.filterMap_append] at same
    exact (List.append_cancel_left same).symm
  cases rest with
  | nil => cases hrest
  | cons y tail =>
    obtain ⟨u, i | m'⟩ := y
    · refine Or.inr ⟨u, i, tail, rfl, ?_⟩
      have hmem : (t, m) ∈ moves tail := by
        have htail : moves tail = (t, m) :: moves after := hrest
        rw [htail]
        exact List.mem_cons_self
      obtain ⟨x, hx, hxm⟩ := List.mem_filterMap.mp hmem
      obtain ⟨_, _, hpair⟩ := Option.map_eq_some_iff.mp hxm
      cases hpair
      exact (List.pairwise_cons.mp (List.pairwise_append.mp sorted').2.1).1 x hx
    · obtain ⟨hhead, _⟩ := List.cons.inj hrest
      cases hhead
      exact Or.inl ⟨tail, rfl⟩

end Log

end Coalesce
