import Coalesce.Proofs.Batch.Clusters
import Coalesce.Proofs.Batch.Restore
import Mathlib.Data.List.Permutation

/-!
# Restoring undoes partitioning

* `Batch.takeApart_eq`          batches taken apart are their layout and their items;
* `Grouping.layout_perm`        the layout of a partition has every position of the input once;
* `cell`                        what stands at a place: at a position in one of several groups;
* `Grouping.restore_partition`  results given for the places of a partition come back in the order
                                of the input, under any grouping.
-/

namespace Coalesce

variable {α β κ σ : Type}

namespace Batch

theorem split_eq (b : Batch α) : b.split = (b.indices, b.values) := by
  unfold split indices values
  rw [List.unzip_eq_map, List.map_map, List.map_map]
  rfl

theorem takeApart_eq (batches : List (Batch α)) :
    takeApart batches = (layout batches, batches.map values) := by
  have hsplit : batches.map split = batches.map fun b => (b.indices, b.values) :=
    List.map_congr_left fun b _ => b.split_eq
  unfold takeApart layout
  rw [hsplit, List.unzip_eq_map, List.map_map, List.map_map]
  rfl

theorem layout_flatten (batches : List (Batch α)) :
    (layout batches).groups.flatten = batches.flatten.map Entry.index :=
  List.map_flatten.symm

end Batch

/-! ## places -/

def cell (groups : List (List β)) (place : Nat × Nat) : Option β :=
  groups[place.1]?.bind fun group => group[place.2]?

theorem cell_eq_some {groups : List (List β)} {place : Nat × Nat} {x : β} :
    cell groups place = some x ↔
      ∃ group, groups[place.1]? = some group ∧ group[place.2]? = some x := by
  unfold cell
  exact Option.bind_eq_some_iff

theorem exists_cell {groups : List (List β)} {x : β} (h : x ∈ groups.flatten) :
    ∃ place, cell groups place = some x := by
  obtain ⟨group, hgroup, hx⟩ := List.mem_flatten.mp h
  obtain ⟨k, hk⟩ := List.mem_iff_getElem?.mp hgroup
  obtain ⟨j, hj⟩ := List.mem_iff_getElem?.mp hx
  exact ⟨(k, j), cell_eq_some.mpr ⟨group, hk, hj⟩⟩

/-- What is in the groups only once has only one place. -/
theorem cell_inj {groups : List (List β)} (h : groups.flatten.Nodup) {p q : Nat × Nat} {x : β}
    (hp : cell groups p = some x) (hq : cell groups q = some x) : p = q := by
  obtain ⟨hnodup, hdisjoint⟩ := List.nodup_flatten.mp h
  obtain ⟨group, hgroup, hx⟩ := cell_eq_some.mp hp
  obtain ⟨group', hgroup', hx'⟩ := cell_eq_some.mp hq
  have hapart : ∀ {i j : Nat} {a b : List β}, groups[i]? = some a → groups[j]? = some b →
      x ∈ a → x ∈ b → ¬ i < j := by
    intro i j a b hi hj ha hb hlt
    obtain ⟨hil, rfl⟩ := List.getElem?_eq_some_iff.mp hi
    obtain ⟨hjl, rfl⟩ := List.getElem?_eq_some_iff.mp hj
    exact List.pairwise_iff_getElem.mp hdisjoint i j hil hjl hlt ha hb
  have hfirst : p.1 = q.1 := by
    have := hapart hgroup hgroup' (List.mem_of_getElem? hx) (List.mem_of_getElem? hx')
    have := hapart hgroup' hgroup (List.mem_of_getElem? hx') (List.mem_of_getElem? hx)
    omega
  rw [hfirst, hgroup'] at hgroup
  cases hgroup
  have hsecond : p.2 = q.2 :=
    (List.getElem?_inj (List.getElem?_eq_some_iff.mp hx).1
      (hnodup _ (List.mem_of_getElem? hgroup'))).mp (hx.trans hx'.symm)
  exact Prod.ext hfirst hsecond

/-- groups of the same lengths have the same places -/
theorem cell_of_shape {groups : List (List α)} {results : List (List β)}
    (shape : results.map List.length = groups.map List.length) {place : Nat × Nat} {x : α}
    (h : cell groups place = some x) : ∃ r, cell results place = some r := by
  obtain ⟨group, hgroup, hx⟩ := cell_eq_some.mp h
  have hlength : (results[place.1]?).map List.length = some group.length := by
    rw [← List.getElem?_map, shape, List.getElem?_map, hgroup]
    rfl
  obtain ⟨part, hpart, hlen⟩ := Option.map_eq_some_iff.mp hlength
  have hlt : place.2 < part.length := by
    rw [hlen]
    exact (List.getElem?_eq_some_iff.mp hx).1
  exact ⟨part[place.2], cell_eq_some.mpr ⟨part, hpart, List.getElem?_eq_getElem hlt⟩⟩

theorem cell_map (f : α → β) (groups : List (List α)) (place : Nat × Nat) :
    cell (groups.map (List.map f)) place = (cell groups place).map f := by
  unfold cell
  rw [List.getElem?_map]
  cases groups[place.1]? with
  | none => rfl
  | some group => exact List.getElem?_map

namespace Grouping

variable [DecidableEq κ] [DecidableEq σ]

theorem layout_perm (g : Grouping α κ σ) (items : List α) :
    (Batch.layout (g.partition items)).groups.flatten.Perm (List.range items.length) := by
  rw [Batch.layout_flatten, ← entries_indices]
  exact (g.partition_perm items).map Entry.index

theorem layout_size (g : Grouping α κ σ) (items : List α) :
    (Batch.layout (g.partition items)).size = items.length := by
  have h := (g.layout_perm items).length_eq
  rw [List.length_range] at h
  exact h

/-- every item has one place -/
theorem place_of_item (g : Grouping α κ σ) {items : List α} {i : Nat} {item : α}
    (h : items[i]? = some item) :
    ∃ place, ∀ other, cell (g.partition items) other = some ⟨item, i⟩ ↔ other = place := by
  have hperm := g.partition_perm items
  have hnodup : (g.partition items).flatten.Nodup := by
    refine hperm.nodup_iff.mpr ((entries_inOrder items).imp ?_)
    rintro x y hlt rfl
    exact Nat.lt_irrefl _ hlt
  have hmem : (⟨item, i⟩ : Entry α) ∈ entries items := mem_entries.mpr h
  obtain ⟨place, hplace⟩ := exists_cell (hperm.mem_iff.mpr hmem)
  exact ⟨place, fun other => ⟨fun ho => cell_inj hnodup ho hplace, fun ho => ho ▸ hplace⟩⟩

/-- Results that fit the batches of a partition are restored, each at the position of its item. -/
theorem restore_places (g : Grouping α κ σ) (items : List α) {results : List (List β)}
    (shape : results.map List.length = (g.partition items).map List.length) :
    ∃ values, (Batch.layout (g.partition items)).restore results = .ok values ∧
      values.length = items.length ∧
      ∀ place e, cell (g.partition items) place = some e →
        values[e.index]? = cell results place := by
  have hshape : results.map List.length
      = (Batch.layout (g.partition items)).groups.map List.length := by
    rw [shape]
    unfold Batch.layout
    rw [List.map_map]
    exact List.map_congr_left fun b _ => (List.length_map _).symm
  have hperm := g.layout_perm items
  rw [← g.layout_size items] at hperm
  obtain ⟨values, hvalues⟩ := Layout.restore_of_perm hperm hshape
  obtain ⟨_, _, hlength, hplaced⟩ := Layout.restore_ok hvalues
  refine ⟨values, hvalues, hlength.trans (g.layout_size items), fun place e he => ?_⟩
  obtain ⟨r, hr⟩ := cell_of_shape shape he
  obtain ⟨b, hb, hbe⟩ := cell_eq_some.mp he
  obtain ⟨part, hpart, hpr⟩ := cell_eq_some.mp hr
  have hgroup : (Batch.layout (g.partition items)).groups[place.1]? = some (Batch.indices b) := by
    unfold Batch.layout
    rw [List.getElem?_map, hb]
    rfl
  have hindex : (Batch.indices b)[place.2]? = some e.index := by
    unfold Batch.indices
    rw [List.getElem?_map, hbe]
    rfl
  rw [hr]
  exact hplaced _ (Layout.mem_placements hgroup hpart hindex hpr)

/-- **Restoring undoes partitioning**, under any grouping.  Results that fit the batches are
restored, as many as there are items, and each item has one place and gets the result that was
given for it.  So a function of the items may as well be applied batch by batch. -/
theorem restore_partition (g : Grouping α κ σ) (items : List α) (results : List (List β))
    (shape : results.map List.length = (g.partition items).map List.length) :
    let batches := g.partition items
    let layout := Batch.layout batches
    Batch.takeApart batches = (layout, batches.map Batch.values) ∧
    layout.size = items.length ∧
    (∃ values, layout.restore results = .ok values ∧ values.length = items.length ∧
      ∀ i item, items[i]? = some item →
        ∃ place, (∀ other, cell batches other = some ⟨item, i⟩ ↔ other = place) ∧
          ∃ r, cell results place = some r ∧ values[i]? = some r) ∧
    ∀ f : α → β, layout.restore ((batches.map Batch.values).map (List.map f)) = .ok (items.map f) := by
  intro batches layout
  refine ⟨Batch.takeApart_eq batches, g.layout_size items, ?_, fun f => ?_⟩
  · obtain ⟨values, hvalues, hlength, hplaced⟩ := g.restore_places items shape
    refine ⟨values, hvalues, hlength, fun i item hi => ?_⟩
    obtain ⟨place, hplace⟩ := g.place_of_item hi
    have hcell := (hplace place).mpr rfl
    obtain ⟨r, hr⟩ := cell_of_shape shape hcell
    exact ⟨place, hplace, r, hr, (hplaced place _ hcell).trans hr⟩
  · have hfit : ((batches.map Batch.values).map (List.map f)).map List.length
        = batches.map List.length := by
      rw [List.map_map, List.map_map]
      refine List.map_congr_left fun b _ => ?_
      show ((b.map Entry.value).map f).length = b.length
      rw [List.length_map, List.length_map]
    obtain ⟨values, hvalues, hlength, hplaced⟩ := g.restore_places items hfit
    rw [hvalues]
    congr 1
    refine List.ext_getElem? fun i => ?_
    rw [List.getElem?_map]
    cases hi : items[i]? with
    | none =>
      rw [List.getElem?_eq_none_iff] at hi
      exact List.getElem?_eq_none (hlength ▸ hi)
    | some item =>
      obtain ⟨place, hplace⟩ := g.place_of_item hi
      have hcell := (hplace place).mpr rfl
      rw [hplaced place ⟨item, i⟩ hcell, cell_map]
      show ((cell (batches.map (List.map Entry.value)) place).map f) = some (f item)
      rw [cell_map, hcell]
      rfl

/-- Every option at once: an equality that only looks one way, and clusters cut from above. -/
def descending : Grouping Nat Nat Nat where
  key n := n % 2
  series n := n / 10
  equality := some fun a b => a ≤ b
  maxSize := some 2
  clustering := some { order := some fun a b => b ≤ a, joins := fun a b => a ≤ b + 2 }

/-- the first result of the first batch belongs to the third item -/
theorem restore_partition_descending :
    [["c", "a"], ["b"], ["d"], ["e"], ["g", "f"], ["h"]].map List.length
        = (descending.partition [1, 4, 3, 1, 2, 12, 14, 5]).map List.length ∧
      cell (descending.partition [1, 4, 3, 1, 2, 12, 14, 5]) (0, 0) = some ⟨3, 2⟩ ∧
      ∃ values, (Batch.layout (descending.partition [1, 4, 3, 1, 2, 12, 14, 5])).restore
          [["c", "a"], ["b"], ["d"], ["e"], ["g", "f"], ["h"]] = .ok values ∧
        values.length = 8 ∧ values[2]? = some "c" := by
  have shape : [["c", "a"], ["b"], ["d"], ["e"], ["g", "f"], ["h"]].map List.length
      = (descending.partition [1, 4, 3, 1, 2, 12, 14, 5]).map List.length := by cbv
  have hplace : cell (descending.partition [1, 4, 3, 1, 2, 12, 14, 5]) (0, 0) = some ⟨3, 2⟩ := by
    cbv
  obtain ⟨_, _, ⟨values, hvalues, hlength, hplaced⟩, _⟩ :=
    descending.restore_partition [1, 4, 3, 1, 2, 12, 14, 5] _ shape
  obtain ⟨place, hunique, r, hr, hvalue⟩ := hplaced 2 3 rfl
  cases (hunique _).mp hplace
  cases hr
  exact ⟨shape, hplace, values, hvalues, hlength, hvalue⟩

end Grouping

end Coalesce
