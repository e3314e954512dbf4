import Coalesce.Proofs.Batch.Strategy

/-!
# The sizes of batches

* `Grouping.Sized`             no batch so far is larger than some bound;
* `Grouping.Sized.place`       an item keeps that: it joins a batch that has room, or opens one;
* `Strategy.partition_length`  so no batch of a strategy holds more requests than fit;
* `Strategy.partition_whole`   when anybody may share a call, requests that all fit are one batch.
-/

namespace Coalesce

namespace Grouping

variable {α κ σ : Type}

def Sized (size : Nat) (p : Progress α κ σ) : Prop := ∀ b ∈ p.batches, b.length ≤ size

variable [DecidableEq κ] [DecidableEq σ]

theorem Sized.place {g : Grouping α κ σ} {size : Nat} (pos : 0 < size)
    (hsize : g.maxSize = sizeBound size) {p : Progress α κ σ} (h : Sized size p)
    (slots : ∀ s ∈ p.slots, s.2 < p.batches.length) (e : Entry α) : Sized size (g.place p e) := by
  have opened : ∀ b ∈ p.batches ++ [[e]], b.length ≤ size := by
    intro b hb
    rcases List.mem_append.mp hb with hb | hb
    · exact h b hb
    · rw [List.mem_singleton.mp hb]
      exact pos
  obtain ⟨_, hp⟩ | ⟨i, k, id, hi, _, _, ⟨_, hp⟩ | ⟨hroom, hp⟩⟩ := g.place_cases p e
  · rw [hp]
    exact opened
  · rw [hp]
    exact opened
  · rw [hp]
    have hid : id < p.batches.length :=
      slots (k, id) (mem_of_mem_openSlots (List.mem_of_getElem? hi))
    have hget : p.batches[id]? = some p.batches[id] := List.getElem?_eq_getElem hid
    have hlt : p.batches[id].length < size := by
      refine Nat.lt_of_not_le fun hle => ?_
      have hbound : g.maxSize = (Option.some size).bind sizeBound := hsize
      have hfull := (isFull_iff hbound hget).mpr ⟨Nat.ne_of_gt pos, hle⟩
      rw [hroom] at hfull
      cases hfull
    intro b hb
    obtain ⟨j, hj⟩ := List.mem_iff_getElem?.mp hb
    rw [List.getElem?_modify] at hj
    obtain ⟨b', hb', rfl⟩ := Option.map_eq_some_iff.mp hj
    split
    · rename_i heq
      subst heq
      rw [hget] at hb'
      rw [← Option.some.inj hb', List.length_append]
      exact hlt
    · exact h b' (List.mem_of_getElem? hb')

theorem walk_sized {g : Grouping α κ σ} {size : Nat} (pos : 0 < size)
    (hsize : g.maxSize = sizeBound size) {es : List (Entry α)} (hes : InOrder es) :
    Sized size (es.foldl g.place .empty) := by
  induction es using List.reverseRecOn with
  | nil => exact fun b hb => absurd hb List.not_mem_nil
  | append_singleton es e ih =>
    obtain ⟨hes', _⟩ := hes.snoc
    rw [List.foldl_append]
    exact (ih hes').place pos hsize (g.walk_tidy hes').slots e

/-- As long as there is room, everybody joins the first batch. -/
theorem walk_whole {size : Nat} {es : List (Entry Item)} (some : es ≠ [])
    (fits : es.length ≤ size) :
    es.foldl (anybody size).place .empty = ⟨[es], [((), 0)], Option.some ()⟩ := by
  induction es using List.reverseRecOn with
  | nil => exact absurd rfl some
  | append_singleton es e ih =>
    rw [List.length_append, List.length_singleton] at fits
    rw [List.foldl_append]
    by_cases hes : es = []
    · rw [hes]
      rfl
    · rw [ih hes (by omega)]
      have hroom : (anybody size).isFull [es] 0 = false := by
        refine Bool.eq_false_iff.mpr fun hfull => ?_
        have hbound : (anybody size).maxSize = (Option.some size).bind sizeBound := rfl
        obtain ⟨_, hle⟩ := (isFull_iff hbound rfl).mp hfull
        have hle : size ≤ es.length := hle
        omega
      -- the only place takes the entry
      show (if (anybody size).isFull [es] 0 then _ else _) = _
      rw [hroom]
      rfl

end Grouping

namespace Strategy

theorem partition_length {s : Strategy} {maxSize : Nat} (pos : 0 < maxSize) {items : List Item}
    {b : Batch Item} (hb : b ∈ s.partition maxSize items) : b.length ≤ maxSize := by
  have hwalk : ∀ {κ σ : Type} [DecidableEq κ] [DecidableEq σ] (g : Grouping Item κ σ),
      g.clustering = none → g.maxSize = Grouping.sizeBound maxSize → b ∈ g.partition items →
      b.length ≤ maxSize := by
    intro κ σ _ _ g hclusters hsize hb
    rw [g.partition_eq_walk hclusters] at hb
    exact g.walk_sized pos hsize (entries_inOrder items) b hb
  cases s with
  | byCaller => exact hwalk (Grouping.byToken maxSize) rfl rfl hb
  | byHeaders => exact hwalk (Grouping.byHeaders maxSize) rfl rfl hb
  | indiscriminate => exact hwalk (Grouping.anybody maxSize) rfl rfl hb

theorem partition_whole {maxSize : Nat} {items : List Item} (some : items ≠ [])
    (fits : items.length ≤ maxSize) :
    Strategy.indiscriminate.partition maxSize items = [entries items] := by
  have hlen := entries_length items
  have hne : entries items ≠ [] := by
    intro hnil
    rw [hnil] at hlen
    exact some (List.length_eq_zero_iff.mp hlen.symm)
  show (Grouping.anybody maxSize).partition items = _
  rw [Grouping.partition_eq_walk _ rfl]
  unfold Grouping.walk
  rw [Grouping.walk_whole hne (hlen ▸ fits)]

end Strategy

end Coalesce
