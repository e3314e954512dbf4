import Coalesce.Proofs.Batch.Walk

/-!
# Partitions lose nothing

* `Clustering.runs_flatten`   runs, one after another, are the list they were cut from;
* `Clustering.split_perm`     the clusters of a batch hold its entries, in whatever order;
* `Grouping.partition_perm`   the batches of a partition hold every entry once, under any grouping;
* `mem_entries`               an entry is an item at its position.

Nothing is asked of the equality, of the order, or of who joins a cluster.
-/

namespace Coalesce

variable {α κ σ : Type}

namespace Clustering

theorem runs_flatten (joins : α → α → Bool) (first : Entry α) (taken rest : Batch α) :
    (runs joins first taken rest).flatten = first :: (taken.reverse ++ rest) := by
  induction rest generalizing first taken with
  | nil => simp [runs]
  | cons e rest ih =>
    unfold runs
    split
    · rw [ih, List.reverse_cons, List.append_assoc]
      rfl
    · rw [List.flatten_cons, ih]
      simp

theorem split_perm (c : Clustering α) (b : Batch α) : (c.split b).flatten.Perm b := by
  unfold split
  cases c.order with
  | none =>
    cases b with
    | nil => exact List.Perm.refl _
    | cons e rest => exact List.Perm.of_eq (runs_flatten c.joins e [] rest)
  | some le =>
    have hsort := List.mergeSort_perm b fun x y => le x.value y.value
    dsimp only
    cases hordered : b.mergeSort fun x y => le x.value y.value with
    | nil =>
      rw [hordered] at hsort
      exact hsort
    | cons e rest =>
      rw [hordered] at hsort
      rw [runs_flatten]
      exact hsort

theorem flatMap_split_perm (c : Clustering α) (batches : List (Batch α)) :
    (batches.flatMap c.split).flatten.Perm batches.flatten := by
  induction batches with
  | nil => exact List.Perm.refl _
  | cons b rest ih =>
    rw [List.flatMap_cons, List.flatten_append, List.flatten_cons]
    exact (c.split_perm b).append ih

end Clustering

/-- Every item is in one batch, once, whatever the grouping. -/
theorem Grouping.partition_perm [DecidableEq κ] [DecidableEq σ] (g : Grouping α κ σ)
    (items : List α) : (g.partition items).flatten.Perm (entries items) := by
  have hwalk := g.walk_perm (entries_inOrder items)
  unfold partition
  dsimp only
  split
  · rw [← List.flatMap_def, List.flatMap_singleton']
  · cases g.clustering with
    | none => exact hwalk
    | some c => exact (c.flatMap_split_perm _).trans hwalk

theorem entries_getElem? (items : List α) (i : Nat) :
    (entries items)[i]? = items[i]?.map fun a => ⟨a, i⟩ := by
  unfold entries
  rw [List.getElem?_map, List.getElem?_zipIdx, Option.map_map, Nat.zero_add]
  rfl

theorem mem_entries {items : List α} {e : Entry α} :
    e ∈ entries items ↔ items[e.index]? = some e.value := by
  rw [List.mem_iff_getElem?]
  constructor
  · rintro ⟨i, hi⟩
    rw [entries_getElem?] at hi
    obtain ⟨a, ha, rfl⟩ := Option.map_eq_some_iff.mp hi
    exact ha
  · intro h
    exact ⟨e.index, by rw [entries_getElem?, h]; rfl⟩

end Coalesce
