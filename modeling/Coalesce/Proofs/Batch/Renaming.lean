import Coalesce.Proofs.Batch.Agree
import Coalesce.Strategy

/-!
# Batches of renamed requests

* `Grouping.comap`              a grouping that looks at items through a function;
* `Grouping.partition_map`      the batches of images are the images of the batches through it;
* `BatchingState.retoken`, `Caller.retoken`, `Item.retoken`
                                the same request, with its token renamed;
* `Strategy.partition_retoken`  tokens that are told apart in the same way make the same batches.

Nothing but the equality of tokens is ever looked at.
-/

set_option linter.unusedSectionVars false

namespace Coalesce

/-- the image of an entry, at the same position -/
def Entry.map {α β : Type} (f : α → β) (e : Entry α) : Entry β := ⟨f e.value, e.index⟩

theorem modify_image {α β : Type} (l : List α) (i : Nat) (f : α → β) {g : α → α} {h : β → β}
    (same : ∀ a, f (g a) = h (f a)) : (l.modify i g).map f = (l.map f).modify i h := by
  refine List.ext_getElem? fun j => ?_
  rw [List.getElem?_map, List.getElem?_modify, List.getElem?_modify, List.getElem?_map]
  cases l[j]? with
  | none => rfl
  | some a =>
    show some (f (if i = j then g a else a)) = some (if i = j then h (f a) else f a)
    split
    · rw [same]
    · rfl

namespace Grouping

variable {α β κ σ : Type} [DecidableEq κ] [DecidableEq σ]

def comap (g : Grouping β κ σ) (f : α → β) : Grouping α κ σ where
  key a := g.key (f a)
  series a := g.series (f a)
  equality := g.equality.map fun same a b => same (f a) (f b)
  maxSize := g.maxSize

def Progress.map (f : α → β) (p : Progress α κ σ) : Progress β κ σ :=
  ⟨p.batches.map fun b => b.map (Entry.map f), p.slots, p.series⟩

section
variable (g : Grouping β κ σ) (f : α → β)

theorem batch_map (batches : List (Batch α)) (id : Nat) :
    (batches.map fun b => b.map (Entry.map f))[id]? = batches[id]?.map fun b => b.map (Entry.map f) :=
  List.getElem?_map ..

theorem accepts_map (batches : List (Batch α)) (item : α) (slot : κ × Nat) :
    g.accepts (batches.map fun b => b.map (Entry.map f)) (f item) slot
      = (g.comap f).accepts batches item slot := by
  unfold accepts comap
  cases g.equality with
  | none => rfl
  | some same =>
    have hrep : ((batches.map fun b => b.map (Entry.map f))[slot.2]?).bind Batch.representative?
        = ((batches[slot.2]?).bind Batch.representative?).map f := by
      rw [batch_map]
      cases batches[slot.2]? with
      | none => rfl
      | some b => cases b <;> rfl
    dsimp only [Option.map_some]
    rw [hrep]
    cases (batches[slot.2]?).bind Batch.representative? <;> rfl

theorem isFull_map (batches : List (Batch α)) (id : Nat) :
    g.isFull (batches.map fun b => b.map (Entry.map f)) id = (g.comap f).isFull batches id := by
  unfold isFull comap
  cases g.maxSize with
  | none => rfl
  | some n =>
    dsimp only
    rw [batch_map]
    cases batches[id]? with
    | none => rfl
    | some b =>
      show decide (n ≤ (b.map (Entry.map f)).length) = decide (n ≤ b.length)
      rw [List.length_map]

/-- The image of a walk is the walk of the images. -/
theorem place_map (p : Progress α κ σ) (e : Entry α) :
    g.place (p.map f) (e.map f) = ((g.comap f).place p e).map f := by
  have hslots : g.openSlots (p.map f) (e.map f).value = (g.comap f).openSlots p e.value := rfl
  have haccepts : g.accepts (p.map f).batches (e.map f).value
      = (g.comap f).accepts p.batches e.value := funext (g.accepts_map f p.batches e.value)
  have hbatches : (p.map f).batches = p.batches.map fun b => b.map (Entry.map f) := rfl
  have hopened : (p.batches.map fun b => b.map (Entry.map f)) ++ [[e.map f]]
      = (p.batches ++ [[e]]).map fun b => b.map (Entry.map f) := by
    rw [List.map_append]
    rfl
  rw [place_eq, place_eq, haccepts, hslots]
  cases ((g.comap f).openSlots p e.value).findIdx? ((g.comap f).accepts p.batches e.value) with
  | none =>
    dsimp only
    rw [hbatches, hopened, List.length_map]
    rfl
  | some i =>
    dsimp only
    rcases ((g.comap f).openSlots p e.value)[i]? with _ | ⟨k, id⟩
    · rfl
    · dsimp only
      rw [hbatches, isFull_map]
      split
      · rw [hopened, List.length_map]
        rfl
      · have hjoined : (p.batches.modify id (· ++ [e])).map (fun b => b.map (Entry.map f))
            = (p.batches.map fun b => b.map (Entry.map f)).modify id (· ++ [e.map f]) :=
          modify_image p.batches id _ fun b => List.map_append
        rw [← hjoined]
        rfl

theorem walk_map (es : List (Entry α)) :
    g.walk (es.map (Entry.map f)) = ((g.comap f).walk es).map fun b => b.map (Entry.map f) := by
  have hfold : (es.map (Entry.map f)).foldl g.place .empty
      = (es.foldl (g.comap f).place .empty).map f := by
    induction es using List.reverseRecOn with
    | nil => rfl
    | append_singleton es e ih =>
      rw [List.map_append, List.foldl_append, List.foldl_append, ih]
      exact g.place_map f _ e
  exact congrArg Progress.batches hfold

theorem entries_map (items : List α) : entries (items.map f) = (entries items).map (Entry.map f) := by
  unfold entries
  rw [List.zipIdx_map, List.map_map, List.map_map]
  rfl

/-- The batches of images are the images of batches. -/
theorem partition_map (hclusters : g.clustering = none) (items : List α) :
    g.partition (items.map f)
      = ((g.comap f).partition items).map fun b => b.map (Entry.map f) := by
  rw [g.partition_eq_walk hclusters, (g.comap f).partition_eq_walk rfl, entries_map, walk_map]

theorem indices_map (b : Batch α) : Batch.indices (b.map (Entry.map f)) = b.indices := by
  unfold Batch.indices
  rw [List.map_map]
  rfl

/-- If images are alike just if the items are, batches of images have the same positions. -/
theorem Agrees.indices {κ' : Type} [DecidableEq κ'] {g : Grouping β κ σ} {g' : Grouping α κ' σ}
    {f : α → β} {items : List α} (h : (g.comap f).Agrees g' items) (hclusters : g.clustering = none) :
    (g.partition (items.map f)).map Batch.indices = (g'.partition items).map Batch.indices := by
  rw [g.partition_map f hclusters, h.partition, List.map_map]
  exact List.map_congr_left fun b _ => indices_map f b

end

end Grouping

/-! ## tokens -/

def BatchingState.retoken (ρ : Nat → Nat) (s : BatchingState) : BatchingState :=
  { s with token := ρ s.token }

def Caller.retoken (ρ : Nat → Nat) (c : Caller) : Caller := { c with state := c.state.retoken ρ }

def Item.retoken (ρ : Nat → Nat) (i : Item) : Item := { i with caller := i.caller.retoken ρ }

/-- **Tokens are only compared.**  However they are renamed, as long as different ones stay different,
a strategy makes the same batches. -/
theorem Strategy.partition_retoken {ρ : Nat → Nat} (inj : Function.Injective ρ) (s : Strategy)
    (maxSize : Nat) (items : List Item) :
    (s.partition maxSize (items.map (Item.retoken ρ))).map Batch.indices
      = (s.partition maxSize items).map Batch.indices := by
  cases s with
  | byCaller =>
    have hagree : ((Grouping.byToken maxSize).comap (Item.retoken ρ)).Agrees
        (Grouping.byToken maxSize) items := by
      refine ⟨fun a _ b _ => ?_, fun a _ => rfl, rfl, rfl⟩
      show (decide (ρ a.caller.state.token = ρ b.caller.state.token) && true)
        = (decide (a.caller.state.token = b.caller.state.token) && true)
      rw [decide_eq_decide.mpr inj.eq_iff]
    exact hagree.indices rfl
  | byHeaders =>
    have hagree : ((Grouping.byHeaders maxSize).comap (Item.retoken ρ)).Agrees
        (Grouping.byHeaders maxSize) items := ⟨fun a _ b _ => rfl, fun a _ => rfl, rfl, rfl⟩
    exact hagree.indices rfl
  | indiscriminate =>
    have hagree : ((Grouping.anybody maxSize).comap (Item.retoken ρ)).Agrees
        (Grouping.anybody maxSize) items := ⟨fun a _ b _ => rfl, fun a _ => rfl, rfl, rfl⟩
    exact hagree.indices rfl

end Coalesce
