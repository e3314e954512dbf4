import Coalesce.Batch.Layout

/-!
# Partitions

* `Entry`, `Batch`       an item with its input position; items that travel together;
* `Grouping`             what decides who travels together: a key, a series, a finer equality, a
                         size, and clusters inside a batch;
* `Grouping.partition`   the batches of a list of items;
* `Batch.layout`         the layout of batches;
* `Batch.takeApart`      their layout, and the bare items that travel on without it.

Items are taken in order.  A change of the series closes every batch.  Inside a series an item goes
to the first open batch of its key whose first item equals it under the finer equality; a batch
that is full gives its place to a new one.
-/

namespace Coalesce

structure Entry (α : Type) where
  value : α
  index : Nat
  deriving DecidableEq

abbrev Batch (α : Type) := List (Entry α)

namespace Batch

variable {α : Type}

def indices (b : Batch α) : List Nat := b.map Entry.index

def values (b : Batch α) : List α := b.map Entry.value

/-- the item that stands for the batch -/
def representative? (b : Batch α) : Option α := b.head?.map Entry.value

def layout (batches : List (Batch α)) : Layout := ⟨batches.map indices⟩

/-- the positions of a batch, and its items -/
def split (b : Batch α) : List Nat × List α := (b.map fun e => (e.index, e.value)).unzip

/-- Takes batches apart: their layout, and the items of each. -/
def takeApart (batches : List (Batch α)) : Layout × List (List α) :=
  let (groups, items) := (batches.map split).unzip
  (⟨groups⟩, items)

end Batch

/-- items with their positions -/
def entries {α : Type} (items : List α) : List (Entry α) :=
  items.zipIdx.map fun p => ⟨p.1, p.2⟩

/-- How a batch is cut further: an optional order, and who may stay with the first item of a
cluster. -/
structure Clustering (α : Type) where
  /-- at most, in the order -/
  order : Option (α → α → Bool)
  joins : α → α → Bool

namespace Clustering

variable {α : Type}

/-- Cuts a list into runs: an item stays as long as it joins the first one of its run. -/
def runs (joins : α → α → Bool) (first : Entry α) (taken : Batch α) :
    Batch α → List (Batch α)
  | [] => [first :: taken.reverse]
  | e :: rest =>
    if joins first.value e.value then runs joins first (e :: taken) rest
    else (first :: taken.reverse) :: runs joins e [] rest

/-- The clusters of a batch. -/
def split (c : Clustering α) (b : Batch α) : List (Batch α) :=
  let ordered := match c.order with
    | some le => b.mergeSort fun x y => le x.value y.value
    | none => b
  match ordered with
  | [] => []
  | e :: rest => runs c.joins e [] rest

end Clustering

structure Grouping (α κ σ : Type) where
  key : α → κ
  series : α → σ
  /-- first item of the batch, and candidate -/
  equality : Option (α → α → Bool) := none
  /-- no bound when absent -/
  maxSize : Option Nat := none
  clustering : Option (Clustering α) := none

namespace Grouping

variable {α κ σ : Type}

/-- a size of zero is no bound -/
def sizeBound (n : Nat) : Option Nat := if n = 0 then none else some n

/-- Batches so far, and the open ones among them by key, in the order in which their places were
opened. -/
structure Progress (α κ σ : Type) where
  batches : List (Batch α)
  slots : List (κ × Nat)
  series : Option σ

def Progress.empty : Progress α κ σ := ⟨[], [], none⟩

variable [DecidableEq κ] [DecidableEq σ]

/-- whether an open batch takes the item -/
def accepts (g : Grouping α κ σ) (batches : List (Batch α)) (item : α) (slot : κ × Nat) : Bool :=
  slot.1 = g.key item &&
    match g.equality with
    | none => true
    | some same =>
      match (batches[slot.2]?).bind Batch.representative? with
      | some first => same first item
      | none => false

/-- no room for a further item -/
def isFull (g : Grouping α κ σ) (batches : List (Batch α)) (id : Nat) : Bool :=
  match g.maxSize with
  | none => false
  | some n => n ≤ (batches[id]?.map List.length).getD 0

/-- Takes one item. -/
def place (g : Grouping α κ σ) (p : Progress α κ σ) (e : Entry α) : Progress α κ σ :=
  let series := g.series e.value
  let slots := if p.series = some series then p.slots else []
  match slots.findIdx? (g.accepts p.batches e.value) with
  | none =>
    ⟨p.batches ++ [[e]], slots ++ [(g.key e.value, p.batches.length)], some series⟩
  | some i =>
    match slots[i]? with
    | none => p
    | some (k, id) =>
      if g.isFull p.batches id then
        ⟨p.batches ++ [[e]], slots.set i (k, p.batches.length), some series⟩
      else ⟨p.batches.modify id (· ++ [e]), slots, some series⟩

/-- The batches before clusters are cut. -/
def walk (g : Grouping α κ σ) (es : List (Entry α)) : List (Batch α) :=
  (es.foldl g.place .empty).batches

def partition (g : Grouping α κ σ) (items : List α) : List (Batch α) :=
  let es := entries items
  if es.length ≤ 1 then es.map fun e => [e]
  else
    match g.clustering with
    | some c => (g.walk es).flatMap c.split
    | none => g.walk es

end Grouping

end Coalesce
