import Coalesce.Proofs.Batch.Clusters
import Coalesce.Proofs.Batch.Exact

/-!
# Groupings that agree

* `Grouping.Keyed`             every open place has the key of the entry that stands for its batch;
* `Grouping.Agrees`            two groupings that have the same series, sizes and clusters and find
                               the same items alike, by whatever keys and equalities;
* `Grouping.Level`             the same batches, and the same open ones in the same order;
* `Grouping.Level.place`       an item keeps two walks level, as each open batch accepts it in both
                               or in neither;
* `Grouping.Agrees.partition`  groupings that agree have the same batches.

The keys need not be told apart in the same way: an item may be like another one because their keys
are equal, or because their keys happen to be equal and so are they under the finer equality.
-/

set_option linter.unusedSectionVars false

namespace Coalesce

namespace Grouping

variable {α κ κ' σ : Type} [DecidableEq κ] [DecidableEq κ'] [DecidableEq σ]

/-! ## who stands for a batch -/

theorem standing_snoc {batches : List (Batch α)} {s : κ × Nat} {f : Entry α}
    (h : standing batches s = some f) (b : Batch α) : standing (batches ++ [b]) s = some f := by
  obtain ⟨c, hc, hf⟩ := Option.bind_eq_some_iff.mp h
  unfold standing
  rw [List.getElem?_append_left (List.getElem?_eq_some_iff.mp hc).1, hc]
  exact hf

theorem standing_snoc_new (batches : List (Batch α)) (k : κ) (e : Entry α) :
    standing (batches ++ [[e]]) (k, batches.length) = some e := by
  unfold standing
  rw [List.getElem?_append_right (Nat.le_refl _), Nat.sub_self]
  rfl

theorem standing_modify {batches : List (Batch α)} {s : κ × Nat} {f : Entry α}
    (h : standing batches s = some f) (id : Nat) (e : Entry α) :
    standing (batches.modify id (· ++ [e])) s = some f := by
  obtain ⟨c, hc, hf⟩ := Option.bind_eq_some_iff.mp h
  unfold standing
  rw [List.getElem?_modify, hc]
  show (if id = s.2 then c ++ [e] else c).head? = some f
  split
  · rw [head?_snoc (List.ne_nil_of_mem (List.mem_of_mem_head? hf))]
    exact hf
  · exact hf

def Keyed (g : Grouping α κ σ) (p : Progress α κ σ) : Prop :=
  ∀ s ∈ p.slots, ∃ f, standing p.batches s = some f ∧ s.1 = g.key f.value

theorem Keyed.place {g : Grouping α κ σ} {p : Progress α κ σ} (h : g.Keyed p) (e : Entry α) :
    g.Keyed (g.place p e) := by
  have hold : ∀ s ∈ g.openSlots p e.value, ∀ b : Batch α,
      ∃ f, standing (p.batches ++ [b]) s = some f ∧ s.1 = g.key f.value := by
    intro s hs b
    obtain ⟨f, hf, hk⟩ := h s (mem_of_mem_openSlots hs)
    exact ⟨f, standing_snoc hf b, hk⟩
  obtain ⟨_, hp⟩ | ⟨i, k, id, _, hacc, _, ⟨_, hp⟩ | ⟨_, hp⟩⟩ := g.place_cases p e
  · rw [hp]
    intro s hs
    rcases List.mem_append.mp hs with hs | hs
    · exact hold s hs [e]
    · rw [List.mem_singleton.mp hs]
      exact ⟨e, standing_snoc_new p.batches _ e, rfl⟩
  · rw [hp]
    intro s hs
    rcases List.mem_or_eq_of_mem_set hs with hs | rfl
    · exact hold s hs [e]
    · -- the place keeps its key, which is the one of the item it accepted
      have hk : k = g.key e.value := key_of_accepts hacc
      exact ⟨e, standing_snoc_new p.batches k e, hk⟩
  · rw [hp]
    intro s hs
    obtain ⟨f, hf, hk⟩ := h s (mem_of_mem_openSlots hs)
    exact ⟨f, standing_modify hf id e, hk⟩

/-! ## two walks -/

structure Agrees (g : Grouping α κ σ) (g' : Grouping α κ' σ) (items : List α) : Prop where
  alike : ∀ a ∈ items, ∀ b ∈ items, g.alike a b = g'.alike a b
  series : ∀ a ∈ items, g.series a = g'.series a
  maxSize : g.maxSize = g'.maxSize
  clustering : g.clustering = g'.clustering

structure Level (p : Progress α κ σ) (p' : Progress α κ' σ) : Prop where
  batches : p.batches = p'.batches
  ids : p.slots.map Prod.snd = p'.slots.map Prod.snd
  series : p.series = p'.series

/-- a place that is found by its batch alone -/
theorem findIdx?_ids {slots : List (κ × Nat)} {accepts : κ × Nat → Bool} {byId : Nat → Bool}
    (h : ∀ s ∈ slots, accepts s = byId s.2) :
    slots.findIdx? accepts = (slots.map Prod.snd).findIdx? byId := by
  induction slots with
  | nil => rfl
  | cons s rest ih =>
    rw [List.map_cons, List.findIdx?_cons, List.findIdx?_cons, h s List.mem_cons_self,
      ih fun t ht => h t (List.mem_cons_of_mem _ ht)]

/-- whether the batch of an open place takes the item, by the entry that stands for it -/
def takes (g : Grouping α κ σ) (batches : List (Batch α)) (a : α) (id : Nat) : Bool :=
  ((batches[id]?).bind List.head?).any fun f => g.alike f.value a

theorem accepts_eq_takes {g : Grouping α κ σ} {p : Progress α κ σ} (h : g.Keyed p) (a : α)
    {s : κ × Nat} (hs : s ∈ p.slots) : g.accepts p.batches a s = g.takes p.batches a s.2 := by
  obtain ⟨f, hf, hk⟩ := h s hs
  have hfirst : (p.batches[s.2]?).bind List.head? = some f := hf
  rw [accepts_eq_alike hf hk]
  unfold takes
  rw [hfirst]
  rfl

section
variable {g : Grouping α κ σ} {g' : Grouping α κ' σ} {items : List α} {p : Progress α κ σ}
  {p' : Progress α κ' σ}

theorem Agrees.takes (h : g.Agrees g' items) {batches : List (Batch α)}
    (hmem : ∀ b ∈ batches, ∀ x ∈ b, x.value ∈ items) {a : α} (ha : a ∈ items) (id : Nat) :
    g.takes batches a id = g'.takes batches a id := by
  unfold Grouping.takes
  cases hf : (batches[id]?).bind List.head? with
  | none => rfl
  | some f =>
    obtain ⟨b, hb, hbf⟩ := Option.bind_eq_some_iff.mp hf
    exact h.alike _ (hmem b (List.mem_of_getElem? hb) f (List.mem_of_mem_head? hbf)) a ha

/-- An item keeps two walks level. -/
theorem Level.place (h : Level p p') (hagree : g.Agrees g' items) (hk : g.Keyed p)
    (hk' : g'.Keyed p') (hmem : ∀ b ∈ p.batches, ∀ x ∈ b, x.value ∈ items) {e : Entry α}
    (he : e.value ∈ items) : Level (g.place p e) (g'.place p' e) := by
  have hseries : g.series e.value = g'.series e.value := hagree.series _ he
  have hopen : (g.openSlots p e.value).map Prod.snd = (g'.openSlots p' e.value).map Prod.snd := by
    unfold openSlots
    rw [h.series, hseries]
    split
    · exact h.ids
    · rfl
  have hfind : (g.openSlots p e.value).findIdx? (g.accepts p.batches e.value)
      = (g'.openSlots p' e.value).findIdx? (g'.accepts p'.batches e.value) := by
    rw [findIdx?_ids fun s hs => accepts_eq_takes hk e.value (mem_of_mem_openSlots hs),
      findIdx?_ids fun s hs => accepts_eq_takes hk' e.value (mem_of_mem_openSlots hs), hopen,
      ← h.batches, funext (hagree.takes hmem he)]
  have hfull : ∀ id, g.isFull p.batches id = g'.isFull p'.batches id := by
    intro id
    unfold isFull
    rw [hagree.maxSize, h.batches]
  rw [place_eq, place_eq, hfind]
  cases (g'.openSlots p' e.value).findIdx? (g'.accepts p'.batches e.value) with
  | none =>
    refine ⟨congrArg (· ++ [[e]]) h.batches, ?_, congrArg some hseries⟩
    simp only [List.map_append, List.map_cons, List.map_nil, hopen, h.batches]
  | some i =>
    have hget : ((g.openSlots p e.value)[i]?).map Prod.snd
        = ((g'.openSlots p' e.value)[i]?).map Prod.snd := by
      rw [← List.getElem?_map, hopen, List.getElem?_map]
    dsimp only
    rcases hs : (g.openSlots p e.value)[i]? with _ | ⟨k, id⟩
    · rw [hs] at hget
      rw [Option.map_eq_none_iff.mp hget.symm]
      exact h
    · rw [hs] at hget
      obtain ⟨⟨k', id'⟩, hs', hid⟩ := Option.map_eq_some_iff.mp hget.symm
      cases hid
      rw [hs']
      dsimp only
      rw [hfull]
      split
      · refine ⟨congrArg (· ++ [[e]]) h.batches, ?_, congrArg some hseries⟩
        simp only [List.map_set, hopen, h.batches]
      · exact ⟨congrArg (List.modify · id (· ++ [e])) h.batches, hopen, congrArg some hseries⟩

/-- Two walks over one list stay level. -/
theorem Agrees.walk (h : g.Agrees g' items) {es : List (Entry α)} (hes : InOrder es)
    (hmem : ∀ e ∈ es, e.value ∈ items) :
    Level (es.foldl g.place .empty) (es.foldl g'.place .empty) ∧
      g.Keyed (es.foldl g.place .empty) ∧ g'.Keyed (es.foldl g'.place .empty) := by
  induction es using List.reverseRecOn with
  | nil =>
    exact ⟨⟨rfl, rfl, rfl⟩, fun s hs => absurd hs List.not_mem_nil,
      fun s hs => absurd hs List.not_mem_nil⟩
  | append_singleton es e ih =>
    obtain ⟨hes', _⟩ := hes.snoc
    obtain ⟨hlevel, hk, hk'⟩ := ih hes' fun x hx => hmem x (List.mem_append_left _ hx)
    have hbatches : ∀ b ∈ (es.foldl g.place .empty).batches, ∀ x ∈ b, x.value ∈ items :=
      fun b hb x hx => hmem x (List.mem_append_left _ ((g.walk_tidy hes').mem hb hx))
    have he : e.value ∈ items := hmem e (List.mem_append_right _ (List.mem_singleton_self e))
    rw [List.foldl_append, List.foldl_append]
    exact ⟨hlevel.place h hk hk' hbatches he, hk.place e, hk'.place e⟩

/-- Groupings that agree on the items have the same batches of them. -/
theorem Agrees.partition (h : g.Agrees g' items) : g.partition items = g'.partition items := by
  have hmem : ∀ e ∈ entries items, e.value ∈ items :=
    fun e he => List.mem_of_getElem? (mem_entries.mp he)
  have hwalk : g.walk (entries items) = g'.walk (entries items) :=
    (h.walk (entries_inOrder items) hmem).1.batches
  unfold Grouping.partition
  dsimp only
  rw [hwalk, h.clustering]

end

end Grouping

end Coalesce
