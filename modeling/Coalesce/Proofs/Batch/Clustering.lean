import Coalesce.Proofs.Batch.Sizes
import Mathlib.Data.List.Chain
import Mathlib.Data.List.Forall2
import Mathlib.Data.List.Permutation

/-!
# What clusters are

* `StablySorted`               a list in some order, entries at one level of it as they were;
* `Clustering.Cut`             clusters that are not empty, whose entries may stay with the first
                               one, while the first one of the next cluster may not;
* `Clustering.Cut.unique`      a list is cut in one way only;
* `Clustering.clusters_iff`    the clusters of a batch are those of the sorted batch, and no other
                               list of lists is;
* `Grouping.partition_clusters`
                               a partition with clusters is the one without them, each batch in its
                               place cut into its clusters.

Nothing is asked of who joins a cluster: all that counts is what the first one of a cluster says
about those behind it.
-/

namespace Coalesce

variable {α κ σ : Type}

/-! ## orders -/

/-- an entry that is neither before nor behind some item -/
def atLevel (le : α → α → Bool) (a : α) (e : Entry α) : Bool := le a e.value && le e.value a

structure StablySorted (le : α → α → Bool) (b sorted : Batch α) : Prop where
  perm : sorted.Perm b
  ascending : sorted.Pairwise fun x y => le x.value y.value = true
  stable : ∀ a, sorted.filter (atLevel le a) = b.filter (atLevel le a)

theorem stablySorted_mergeSort {le : α → α → Bool}
    (trans : ∀ x y z, le x y = true → le y z = true → le x z = true)
    (total : ∀ x y, (le x y || le y x) = true) (b : Batch α) :
    StablySorted le b (b.mergeSort fun x y => le x.value y.value) := by
  have htrans : ∀ x y z : Entry α, le x.value y.value = true → le y.value z.value = true →
      le x.value z.value = true := fun x y z => trans _ _ _
  have htotal : ∀ x y : Entry α, (le x.value y.value || le y.value x.value) = true :=
    fun x y => total _ _
  have hperm := List.mergeSort_perm b fun x y => le x.value y.value
  refine ⟨hperm, List.pairwise_mergeSort htrans htotal b, fun a => ?_⟩
  -- a level is in order as it is, so sorting leaves it that way
  have hlevel : (b.filter (atLevel le a)).Pairwise fun x y => le x.value y.value = true := by
    refine List.pairwise_of_forall_mem_list fun x hx y hy => ?_
    have hx := (List.mem_filter.mp hx).2
    have hy := (List.mem_filter.mp hy).2
    simp only [atLevel, Bool.and_eq_true] at hx hy
    exact trans _ _ _ hx.2 hy.1
  have hsub := (List.sublist_mergeSort htrans htotal hlevel List.filter_sublist).filter
    (atLevel le a)
  rw [List.filter_filter] at hsub
  simp only [Bool.and_self] at hsub
  exact (hsub.eq_of_length (hperm.filter _).length_eq.symm).symm

theorem first_le {le : α → α → Bool} (total : ∀ x y, (le x y || le y x) = true) {x y : Entry α}
    {rest : Batch α} (sorted : (x :: rest).Pairwise fun x y => le x.value y.value = true)
    (hy : y ∈ x :: rest) : le x.value y.value = true := by
  rcases List.mem_cons.mp hy with rfl | hy
  · simpa using total y.value y.value
  · exact (List.pairwise_cons.mp sorted).1 y hy

/-- There is one way to sort a list and leave every level as it was. -/
theorem StablySorted.unique {le : α → α → Bool} (total : ∀ x y, (le x y || le y x) = true)
    {b s s' : Batch α} (h : StablySorted le b s) (h' : StablySorted le b s') : s = s' := by
  have hperm := h.perm.trans h'.perm.symm
  have hstable : ∀ a, s.filter (atLevel le a) = s'.filter (atLevel le a) :=
    fun a => (h.stable a).trans (h'.stable a).symm
  have hs := h.ascending
  have hs' := h'.ascending
  clear h h'
  induction s generalizing s' with
  | nil => exact hperm.nil_eq
  | cons x rest ih =>
    cases s' with
    | nil => exact hperm.eq_nil
    | cons y rest' =>
      -- both first entries are at one level
      have hxx : le x.value x.value = true := first_le total hs List.mem_cons_self
      have hxy : le x.value y.value = true :=
        first_le total hs (hperm.mem_iff.mpr List.mem_cons_self)
      have hyx : le y.value x.value = true :=
        first_le total hs' (hperm.mem_iff.mp List.mem_cons_self)
      have hfirst := hstable x.value
      rw [List.filter_cons_of_pos (by simp [atLevel, hxx]),
        List.filter_cons_of_pos (by simp [atLevel, hxy, hyx])] at hfirst
      obtain ⟨rfl, _⟩ := List.cons.inj hfirst
      rw [ih hperm.cons_inv (fun a => ?_) hs.of_cons hs'.of_cons]
      have ha := hstable a
      rw [List.filter_cons, List.filter_cons] at ha
      split at ha
      · exact (List.cons.inj ha).2
      · exact ha

namespace Clustering

/-! ## cuts -/

structure Cut (joins : α → α → Bool) (clusters : List (Batch α)) : Prop where
  joined : ∀ k ∈ clusters, ∃ first rest, k = first :: rest ∧
    ∀ e ∈ rest, joins first.value e.value = true
  apart : clusters.IsChain fun k next =>
    ∀ first ∈ k.head?, ∀ e ∈ next.head?, joins first.value e.value = false

variable {joins : α → α → Bool}

theorem cut_nil : Cut joins [] :=
  ⟨fun _ hk => absurd hk List.not_mem_nil, List.IsChain.nil⟩

theorem cut_cons {first : Entry α} {rest : Batch α} {clusters : List (Batch α)} :
    Cut joins ((first :: rest) :: clusters) ↔
      (∀ e ∈ rest, joins first.value e.value = true) ∧
        (∀ e ∈ clusters.flatten.head?, joins first.value e.value = false) ∧
          Cut joins clusters := by
  -- no cluster is empty, so what is left begins with the next one
  have hnext : (∀ k ∈ clusters, ∃ first rest, k = first :: rest ∧
      ∀ e ∈ rest, joins first.value e.value = true) → ∀ e,
      e ∈ clusters.flatten.head? ↔ ∃ next ∈ clusters.head?, e ∈ next.head? := by
    intro hjoined e
    cases clusters with
    | nil => simp
    | cons k ks =>
      obtain ⟨first', rest', rfl, _⟩ := hjoined k List.mem_cons_self
      simp
  constructor
  · rintro ⟨hjoined, hapart⟩
    obtain ⟨hfirst, htail⟩ := List.forall_mem_cons.mp hjoined
    obtain ⟨hhead, hchain⟩ := List.isChain_cons.mp hapart
    obtain ⟨_, _, hk, hstay⟩ := hfirst
    cases hk
    refine ⟨hstay, fun e he => ?_, htail, hchain⟩
    obtain ⟨next, hmem, he⟩ := (hnext htail e).mp he
    exact hhead next hmem first rfl e he
  · rintro ⟨hstay, hleft, htail, hchain⟩
    refine ⟨List.forall_mem_cons.mpr ⟨⟨first, rest, rfl, hstay⟩, htail⟩,
      List.isChain_cons.mpr ⟨fun next hmem f hf e he => ?_, hchain⟩⟩
    cases hf
    exact hleft e ((hnext htail e).mpr ⟨next, hmem, he⟩)

/-- a cluster ends where the first one that may not stay begins -/
theorem cut_ends {first : Entry α} {more left : Batch α}
    (stay : ∀ e ∈ more, joins first.value e.value = true)
    (next : ∀ e ∈ (more ++ left).head?, joins first.value e.value = false) : more = [] := by
  cases more with
  | nil => rfl
  | cons e more =>
    have hstays := stay e List.mem_cons_self
    have hleaves := next e rfl
    rw [hstays] at hleaves
    cases hleaves

/-- Two cuts of one list are the same. -/
theorem Cut.unique {clusters clusters' : List (Batch α)} (h : Cut joins clusters)
    (h' : Cut joins clusters') (same : clusters.flatten = clusters'.flatten) :
    clusters = clusters' := by
  induction clusters generalizing clusters' with
  | nil =>
    cases clusters' with
    | nil => rfl
    | cons k' ks' =>
      obtain ⟨first', rest', rfl, _⟩ := h'.joined k' List.mem_cons_self
      cases same
  | cons k ks ih =>
    obtain ⟨first, rest, rfl, _⟩ := h.joined k List.mem_cons_self
    cases clusters' with
    | nil => cases same
    | cons k' ks' =>
      obtain ⟨first', rest', rfl, _⟩ := h'.joined k' List.mem_cons_self
      obtain ⟨hstay, hnext, hks⟩ := cut_cons.mp h
      obtain ⟨hstay', hnext', hks'⟩ := cut_cons.mp h'
      obtain ⟨rfl, hlists⟩ := List.cons.inj same
      have hrest : rest = rest' ∧ ks.flatten = ks'.flatten := by
        rcases List.append_eq_append_iff.mp hlists with ⟨more, hlong, hleft⟩ | ⟨more, hlong, hleft⟩
        · rw [hlong] at hstay'
          rw [hleft] at hnext
          obtain rfl := cut_ends (fun e he => hstay' e (List.mem_append_right _ he)) hnext
          rw [List.append_nil] at hlong
          exact ⟨hlong.symm, hleft⟩
        · rw [hlong] at hstay
          rw [hleft] at hnext'
          obtain rfl := cut_ends (fun e he => hstay e (List.mem_append_right _ he)) hnext'
          rw [List.append_nil] at hlong
          exact ⟨hlong, hleft.symm⟩
      rw [hrest.1, ih hks hks' hrest.2]

/-- Runs are a cut. -/
theorem cut_runs {first : Entry α} {taken : Batch α}
    (stay : ∀ e ∈ taken, joins first.value e.value = true) (rest : Batch α) :
    Cut joins (runs joins first taken rest) := by
  induction rest generalizing first taken with
  | nil =>
    refine cut_cons.mpr ⟨fun e he => stay e (List.mem_reverse.mp he), fun e he => ?_, cut_nil⟩
    cases he
  | cons e rest ih =>
    unfold runs
    split
    · rename_i hjoins
      exact ih (List.forall_mem_cons.mpr ⟨hjoins, stay⟩)
    · rename_i hleaves
      refine cut_cons.mpr ⟨fun e he => stay e (List.mem_reverse.mp he), fun e' he' => ?_,
        ih fun e he => absurd he List.not_mem_nil⟩
      rw [runs_flatten] at he'
      cases he'
      exact Bool.eq_false_iff.mpr hleaves

/-! ## clusters -/

/-- The order of a clustering, if it has one, is total and transitive. -/
structure Lawful (c : Clustering α) : Prop where
  trans : ∀ le, c.order = some le → ∀ x y z, le x y = true → le y z = true → le x z = true
  total : ∀ le, c.order = some le → ∀ x y, (le x y || le y x) = true

/-- a batch in the order of a clustering -/
def Arranged (c : Clustering α) (b arranged : Batch α) : Prop :=
  match c.order with
  | none => arranged = b
  | some le => StablySorted le b arranged

/-- what makes lists the clusters of a batch -/
structure Clusters (c : Clustering α) (b : Batch α) (clusters : List (Batch α)) : Prop where
  whole : c.Arranged b clusters.flatten
  cut : Cut c.joins clusters

variable {c : Clustering α} (lawful : c.Lawful)
include lawful

theorem Arranged.unique {b s s' : Batch α} (h : c.Arranged b s) (h' : c.Arranged b s') :
    s = s' := by
  unfold Arranged at h h'
  cases horder : c.order with
  | none =>
    rw [horder] at h h'
    exact Eq.trans h h'.symm
  | some le =>
    rw [horder] at h h'
    exact h.unique (lawful.total le horder) h'

omit lawful in
theorem Arranged.clusters_runs {b rest : Batch α} {e : Entry α} (h : c.Arranged b (e :: rest)) :
    c.Clusters b (runs c.joins e [] rest) := by
  refine ⟨?_, cut_runs (fun x hx => absurd hx List.not_mem_nil) rest⟩
  rw [runs_flatten]
  exact h

theorem clusters_split (b : Batch α) : c.Clusters b (c.split b) := by
  unfold split
  cases horder : c.order with
  | none =>
    have harranged : c.Arranged b b := by
      unfold Arranged
      rw [horder]
    cases b with
    | nil => exact ⟨harranged, cut_nil⟩
    | cons e rest => exact harranged.clusters_runs
  | some le =>
    have harranged : c.Arranged b (b.mergeSort fun x y => le x.value y.value) := by
      unfold Arranged
      rw [horder]
      exact stablySorted_mergeSort (lawful.trans le horder) (lawful.total le horder) b
    dsimp only
    cases hsorted : b.mergeSort fun x y => le x.value y.value with
    | nil =>
      rw [hsorted] at harranged
      exact ⟨harranged, cut_nil⟩
    | cons e rest =>
      rw [hsorted] at harranged
      exact harranged.clusters_runs

theorem clusters_iff {b : Batch α} {clusters : List (Batch α)} :
    c.Clusters b clusters ↔ clusters = c.split b := by
  constructor
  · intro h
    have hsplit := clusters_split lawful b
    exact h.cut.unique hsplit.cut (h.whole.unique lawful hsplit.whole)
  · rintro rfl
    exact clusters_split lawful b

/-- batch by batch -/
theorem forall₂_clusters {batches : List (Batch α)} {parts : List (List (Batch α))} :
    List.Forall₂ c.Clusters batches parts ↔ parts = batches.map c.split := by
  have hsame : c.Clusters = fun b clusters => clusters = c.split b := by
    funext b clusters
    exact propext (clusters_iff lawful)
  rw [hsame]
  constructor
  · intro h
    induction h with
    | nil => rfl
    | cons hb _ ih => rw [hb, ih, List.map_cons]
  · rintro rfl
    exact List.forall₂_map_right_iff.mpr (List.forall₂_same.mpr fun b _ => rfl)

end Clustering

namespace Grouping

variable [DecidableEq κ] [DecidableEq σ]

/-- With clusters the short cut for short lists makes no difference either. -/
theorem partition_eq_split (g : Grouping α κ σ) {c : Clustering α} (h : g.clustering = some c)
    (items : List α) : g.partition items = (g.walk (entries items)).flatMap c.split := by
  have hshort : ∀ e : Entry α, c.split [e] = [[e]] := by
    intro e
    unfold Clustering.split
    cases c.order with
    | none => rfl
    | some le => simp [Clustering.runs]
  unfold partition
  dsimp only
  rw [h]
  split
  · rename_i hlen
    rcases hes : entries items with _ | ⟨e, _ | ⟨e', rest⟩⟩
    · rfl
    · rw [g.walk_singleton e, List.flatMap_singleton, hshort e]
      rfl
    · rw [hes, List.length_cons, List.length_cons] at hlen
      omega
  · rfl

/-- **The clusters of a partition.**  Whoever may join a cluster, and for every order that is total
and transitive, or none: a partition with clusters is the one without them in which every batch has
been replaced by its clusters.  These are the batch in that order, entries at one level as they
were; none of them is empty, all entries of one may stay with its first one, and the first one of
the next may not; and there is one partition only of which that holds.  No cluster is larger than
fits.  One item, or none, is no exception. -/
theorem partition_clusters (key : α → κ) (series : α → σ) (equality : Option (α → α → Bool))
    (bound : Option Nat) (c : Clustering α) (lawful : c.Lawful) (items : List α) :
    let plain : Grouping α κ σ := { key, series, equality, maxSize := bound.bind sizeBound }
    let g : Grouping α κ σ := { plain with clustering := some c }
    (∀ batches, batches = g.partition items ↔
      ∃ parts, List.Forall₂ c.Clusters (plain.partition items) parts ∧ batches = parts.flatten) ∧
    (∀ n, bound = some n → 0 < n → ∀ b ∈ g.partition items, b.length ≤ n) ∧
    (items.length ≤ 1 → g.partition items = (entries items).map fun e => [e]) := by
  intro plain g
  have hwalk : g.partition items = (plain.partition items).flatMap c.split := by
    rw [g.partition_eq_split rfl, plain.partition_eq_walk rfl]
    rfl
  refine ⟨fun batches => ?_, fun n hbound hpos b hb => ?_, fun hlen => ?_⟩
  · simp only [Clustering.forall₂_clusters lawful, exists_eq_left]
    rw [hwalk, List.flatMap_def]
  · rw [hwalk] at hb
    obtain ⟨whole, hwhole, hb⟩ := List.mem_flatMap.mp hb
    rw [plain.partition_eq_walk rfl] at hwhole
    have hsize : plain.maxSize = sizeBound n := by
      show bound.bind sizeBound = sizeBound n
      rw [hbound]
      rfl
    have hle := walk_sized hpos hsize (entries_inOrder items) whole hwhole
    have hpart := (List.sublist_flatten_of_mem hb).length_le
    have hall := (c.split_perm whole).length_eq
    omega
  · rw [← entries_length items] at hlen
    unfold partition
    dsimp only
    rw [if_pos hlen]

/-- two batches in the order of the tens, and an item stays with one that is not larger -/
theorem partition_clusters_tens :
    let c : Clustering Nat :=
      { order := some fun a b => a / 10 ≤ b / 10, joins := fun a b => a ≤ b }
    let plain : Grouping Nat Unit Unit :=
      { key := fun _ => (), series := fun _ => (), maxSize := (some 5).bind sizeBound }
    c.Lawful ∧ ∃ parts, List.Forall₂ c.Clusters (plain.partition [21, 13, 25, 11, 12, 5]) parts ∧
      [[⟨13, 1⟩], [⟨11, 3⟩, ⟨12, 4⟩, ⟨21, 0⟩, ⟨25, 2⟩], [⟨5, 5⟩]] = parts.flatten := by
  intro c plain
  have lawful : c.Lawful := by
    refine ⟨fun le hle => ?_, fun le hle => ?_⟩
    · cases hle
      intro x y z hxy hyz
      exact decide_eq_true (Nat.le_trans (of_decide_eq_true hxy) (of_decide_eq_true hyz))
    · cases hle
      intro x y
      simpa using Nat.le_total (x / 10) (y / 10)
  obtain ⟨hunique, _⟩ := partition_clusters (fun _ : Nat => ()) (fun _ => ()) none (some 5) c lawful
    [21, 13, 25, 11, 12, 5]
  exact ⟨lawful, (hunique _).mp (by cbv)⟩

end Grouping

end Coalesce
