import Coalesce.Proofs.Batch.Clusters
import Coalesce.Proofs.Batch.Exact
import Coalesce.Strategy

/-!
# The batches of a strategy

* `Strategy.partition_perm`       every request is in one batch, once;
* `Strategy.partition_fits`       what the members of one batch have in common.

The finer equality of headers is an equivalence: it compares the headers themselves, and digests
that are computed from them.
-/

namespace Coalesce

namespace Strategy

/-- What requests need in common to share a call. -/
def Fits (s : Strategy) (a b : Item) : Prop :=
  match s with
  | .byCaller => a.caller.state.token = b.caller.state.token
  | .byHeaders => a.caller.state.headers = b.caller.state.headers
  | .indiscriminate => True

theorem partition_perm (s : Strategy) (maxSize : Nat) (items : List Item) :
    (s.partition maxSize items).flatten.Perm (entries items) := by
  cases s with
  | byCaller => exact (Grouping.byToken maxSize).partition_perm items
  | byHeaders => exact (Grouping.byHeaders maxSize).partition_perm items
  | indiscriminate => exact (Grouping.anybody maxSize).partition_perm items

/-- An entry of a batch is the request at its position. -/
theorem getElem?_of_mem_partition {s : Strategy} {maxSize : Nat} {items : List Item}
    {b : Batch Item} (hb : b ∈ s.partition maxSize items) {e : Entry Item} (he : e ∈ b) :
    items[e.index]? = some e.value :=
  mem_entries.mp ((s.partition_perm maxSize items).mem_iff.mp (List.mem_flatten.mpr ⟨b, hb, he⟩))

theorem partition_nonempty {s : Strategy} {maxSize : Nat} {items : List Item} {b : Batch Item}
    (hb : b ∈ s.partition maxSize items) : b ≠ [] := by
  have hwalk : ∀ {κ σ : Type} [DecidableEq κ] [DecidableEq σ] (g : Grouping Item κ σ),
      g.clustering = none → b ∈ g.partition items → b ≠ [] := by
    intro κ σ _ _ g hclusters hb
    rw [g.partition_eq_walk hclusters] at hb
    exact (g.walk_tidy (entries_inOrder items)).nonempty b hb
  cases s with
  | byCaller => exact hwalk (Grouping.byToken maxSize) rfl hb
  | byHeaders => exact hwalk (Grouping.byHeaders maxSize) rfl hb
  | indiscriminate => exact hwalk (Grouping.anybody maxSize) rfl hb

theorem sameHeaders_iff {a b : BatchingState} :
    a.sameHeaders b = true ↔ a.digest = b.digest ∧ a.headers = b.headers := by
  unfold BatchingState.sameHeaders
  rw [Bool.and_eq_true, decide_eq_true_eq, decide_eq_true_eq]

theorem byHeaders_lawful (maxSize : Nat) : (Grouping.byHeaders maxSize).Lawful := by
  intro same h
  cases h
  refine ⟨fun a => ?_, fun {a b} hab => ?_, fun {a b c} hab hbc => ?_⟩
  · exact sameHeaders_iff.mpr ⟨rfl, rfl⟩
  · obtain ⟨hd, hh⟩ := sameHeaders_iff.mp hab
    exact sameHeaders_iff.mpr ⟨hd.symm, hh.symm⟩
  · obtain ⟨hd, hh⟩ := sameHeaders_iff.mp hab
    obtain ⟨hd', hh'⟩ := sameHeaders_iff.mp hbc
    exact sameHeaders_iff.mpr ⟨hd.trans hd', hh.trans hh'⟩

theorem byToken_lawful (maxSize : Nat) : (Grouping.byToken maxSize).Lawful := by
  intro same h
  cases h

theorem alike_of_partition {κ σ : Type} [DecidableEq κ] [DecidableEq σ] {g : Grouping Item κ σ}
    (hg : g.Lawful) (hclusters : g.clustering = none) {bound : Nat}
    (hsize : g.maxSize = (some bound).bind Grouping.sizeBound) {items : List Item} {b : Batch Item}
    (hb : b ∈ g.partition items) {x y : Entry Item} (hx : x ∈ b) (hy : y ∈ b) :
    g.alike x.value y.value = true := by
  rw [g.partition_eq_walk hclusters] at hb
  have hexact := Grouping.walk_exact hg hsize (entries_inOrder items)
  have hmem : ∀ z ∈ b, z ∈ entries items := fun z hz => hexact.mem hb hz
  exact ((hexact.together_iff (hmem x hx) (hmem y hy)).mp ⟨b, hb, hx, hy⟩).2.1

/-- The members of one batch have in common what their strategy asks for. -/
theorem partition_fits {s : Strategy} {maxSize : Nat} {items : List Item} {b : Batch Item}
    (hb : b ∈ s.partition maxSize items) {x y : Entry Item} (hx : x ∈ b) (hy : y ∈ b) :
    s.Fits x.value y.value := by
  cases s with
  | byCaller =>
    have halike := alike_of_partition (byToken_lawful maxSize) rfl rfl hb hx hy
    exact ((Grouping.alike_iff _ _ _).mp halike).1
  | byHeaders =>
    have halike := alike_of_partition (byHeaders_lawful maxSize) rfl rfl hb hx hy
    exact (sameHeaders_iff.mp (((Grouping.alike_iff _ _ _).mp halike).2 _ rfl)).2
  | indiscriminate => trivial

end Strategy

end Coalesce
