import Coalesce.Proofs.Batch.Strategy
import Mathlib.Data.List.Sort

/-!
# The order of alike requests

* `Grouping.rank_le_rank`      later entries of a run that are alike do not have smaller ranks;
* `Grouping.Exact.alike_order`, `Grouping.partition_filter`
                               alike entries are listed in the order of arrival, over all batches;
* `Strategy.same`, `Strategy.partition_filter`
                               the same for the requests that a strategy would let share a call.

A batch may start before another one and hold entries that come after those of the other; then no
entry of the one is like an entry of the other.
-/

namespace Coalesce

namespace Grouping

variable {α κ σ : Type} [DecidableEq κ] [DecidableEq σ]

theorem rank_le_rank {g : Grouping α κ σ} (hg : g.Lawful) {es : List (Entry α)} {x y : Entry α}
    (hx : x ∈ es) (hle : x.index ≤ y.index) (hrun : g.SameRun es x y)
    (hxy : g.alike x.value y.value = true) : g.rank es x ≤ g.rank es y := by
  unfold rank
  refine List.countP_mono_left fun e he h => ?_
  simp only [decide_eq_true_eq] at h ⊢
  obtain ⟨hlt, hsame, halike⟩ := h
  exact ⟨Nat.lt_of_lt_of_le hlt hle, hsame.trans hrun hx, alike_trans hg halike hxy⟩

theorem block_mono (bound : Option Nat) {r s : Nat} (h : r ≤ s) : block bound r ≤ block bound s := by
  rw [block_eq, block_eq]
  exact Nat.div_le_div_right h

theorem head_le {b : Batch α} (hb : InOrder b) {f x : Entry α} (hf : b.head? = some f)
    (hx : x ∈ b) : f.index ≤ x.index := by
  cases b with
  | nil => cases hf
  | cons e rest =>
    cases hf
    rcases List.mem_cons.mp hx with rfl | hx
    · exact Nat.le_refl _
    · exact Nat.le_of_lt (List.rel_of_pairwise_cons hb hx)

/-- Between alike entries of one run that are mates, all alike entries are mates. -/
theorem Mates.between {g : Grouping α κ σ} (hg : g.Lawful) {bound : Option Nat}
    {es : List (Entry α)} {x y z : Entry α} (h : g.Mates bound es x z) (hx : x ∈ es) (hy : y ∈ es)
    (hxy : x.index ≤ y.index) (hyz : y.index ≤ z.index) (halike : g.alike z.value y.value = true) :
    g.Mates bound es x y := by
  obtain ⟨hrun, hxz, hblock⟩ := h
  have hrun_xy : g.SameRun es x y := fun e he h₁ h₂ => hrun e he (by omega) (by omega)
  have hrun_yz : g.SameRun es y z := by
    intro e he h₁ h₂
    rw [hrun e he (by omega) (by omega), hrun y hy (by omega) (by omega)]
  have hsame : g.alike x.value y.value = true := alike_trans hg hxz halike
  have hfirst := block_mono bound (rank_le_rank hg hx hxy hrun_xy hsame)
  have hlast := block_mono bound (rank_le_rank hg hy hyz hrun_yz (alike_symm hg halike))
  exact ⟨hrun_xy, hsame, Nat.le_antisymm hfirst (hblock ▸ hlast)⟩

/-- alike entries in the order of the batches -/
theorem Exact.alike_order {g : Grouping α κ σ} (hg : g.Lawful) {bound : Option Nat}
    {es : List (Entry α)} {p : Progress α κ σ} (h : g.Exact bound es p) :
    p.batches.flatten.Pairwise fun x y => g.alike x.value y.value = true → x.index < y.index := by
  refine List.pairwise_flatten.mpr ⟨fun b hb => ?_, ?_⟩
  · refine (h.inOrder b hb).imp ?_
    intro x y hlt _
    exact hlt
  · refine List.pairwise_iff_getElem.mpr fun i j hi hj hij x hx y hy hxy => ?_
    have hbi : p.batches[i]? = some p.batches[i] := List.getElem?_eq_getElem hi
    have hbj : p.batches[j]? = some p.batches[j] := List.getElem?_eq_getElem hj
    have hbmem : p.batches[i] ∈ p.batches := List.getElem_mem hi
    have hcmem : p.batches[j] ∈ p.batches := List.getElem_mem hj
    obtain ⟨f, hf⟩ := Option.isSome_iff_exists.mp
      (List.isSome_head?.mpr (h.nonempty _ hbmem))
    obtain ⟨k, hk⟩ := Option.isSome_iff_exists.mp
      (List.isSome_head?.mpr (h.nonempty _ hcmem))
    have hfb : f ∈ p.batches[i] := List.mem_of_mem_head? hf
    have hfk : f.index < k.index := List.pairwise_iff_getElem.mp h.firsts i j hi hj hij f hf k hk
    have hky : k.index ≤ y.index := head_le (h.inOrder _ hcmem) hk hy
    -- otherwise the later one belongs into the batch of the earlier one
    by_contra hlate
    have hmates : g.Mates bound es f x := (h.mates i i _ _ hbi hbi f hfb x hx).mpr rfl
    have hfy : g.Mates bound es f y :=
      hmates.between hg (h.mem hbmem hfb) (h.mem hcmem hy) (by omega) (by omega) hxy
    have hsame := (h.mates i j _ _ hbi hbj f hfb y hy).mp hfy
    omega

/-- A partition keeps the order of alike entries. -/
theorem partition_filter {g : Grouping α κ σ} (hg : g.Lawful) (hclusters : g.clustering = none)
    {bound : Option Nat} (hsize : g.maxSize = bound.bind sizeBound) (items : List α) (a : α) :
    ((g.partition items).flatten.filter fun e => g.alike a e.value)
      = (entries items).filter fun e => g.alike a e.value := by
  rw [g.partition_eq_walk hclusters]
  have hes := entries_inOrder items
  have horder : (g.walk (entries items)).flatten.Pairwise fun x y =>
      g.alike x.value y.value = true → x.index < y.index :=
    (walk_exact hg hsize hes).alike_order hg
  have hleft : ((g.walk (entries items)).flatten.filter fun e => g.alike a e.value).Pairwise
      fun x y => x.index < y.index := by
    refine List.pairwise_filter.mpr (horder.imp fun {x y} hlt hx hy => hlt ?_)
    exact alike_trans hg (alike_symm hg hx) hy
  have hright : ((entries items).filter fun e => g.alike a e.value).Pairwise
      fun x y => x.index < y.index := hes.filter _
  refine List.Perm.eq_of_pairwise ?_ hleft hright ((g.walk_perm hes).filter _)
  exact fun x y _ _ hxy hyx => absurd hxy (Nat.lt_asymm hyx)

end Grouping

namespace Strategy

/-- Whether a strategy would let requests share a call, but for their kinds and the size of a
batch. -/
def same (s : Strategy) (a b : Item) : Bool :=
  match s with
  | .byCaller => a.caller.state.token = b.caller.state.token
  | .byHeaders => a.caller.state.sameHeaders b.caller.state
  | .indiscriminate => true

/-- a strategy whose grouping is known -/
theorem filter_of_alike {κ σ : Type} [DecidableEq κ] [DecidableEq σ] {g : Grouping Item κ σ}
    (hg : g.Lawful) (hclusters : g.clustering = none) {maxSize : Nat}
    (hsize : g.maxSize = Grouping.sizeBound maxSize) {s : Strategy}
    (halike : ∀ a b, g.alike a b = true ↔ s.same a b = true) (items : List Item) (a : Item) :
    ((g.partition items).flatten.filter fun e => s.same a e.value)
      = (entries items).filter fun e => s.same a e.value := by
  have hsame : (fun e : Entry Item => s.same a e.value) = fun e => g.alike a e.value :=
    funext fun e => Bool.eq_iff_iff.mpr (halike a e.value).symm
  rw [hsame]
  have hbound : g.maxSize = (some maxSize).bind Grouping.sizeBound := hsize
  exact Grouping.partition_filter hg hclusters hbound items a

theorem partition_filter (s : Strategy) (maxSize : Nat) (items : List Item) (a : Item) :
    ((s.partition maxSize items).flatten.filter fun e => s.same a e.value)
      = (entries items).filter fun e => s.same a e.value := by
  cases s with
  | byCaller =>
    refine filter_of_alike (byToken_lawful maxSize) rfl rfl (fun a b => ?_) items a
    rw [Grouping.alike_iff]
    refine ⟨fun h => decide_eq_true h.1, fun h => ⟨of_decide_eq_true h, fun same hs => ?_⟩⟩
    cases hs
  | byHeaders =>
    refine filter_of_alike (byHeaders_lawful maxSize) rfl rfl (fun a b => ?_) items a
    rw [Grouping.alike_iff]
    refine ⟨fun h => h.2 _ rfl, fun h => ⟨(sameHeaders_iff.mp h).1, fun same hs => ?_⟩⟩
    cases hs
    exact h
  | indiscriminate =>
    have hlawful : (Grouping.anybody maxSize).Lawful := fun same hs => by cases hs
    refine filter_of_alike hlawful rfl rfl (fun a b => ?_) items a
    rw [Grouping.alike_iff]
    refine ⟨fun _ => rfl, fun _ => ⟨rfl, fun same hs => ?_⟩⟩
    cases hs

end Strategy

end Coalesce
