import Coalesce.Batch.Layout
import Mathlib.Data.List.Basic
import Mathlib.Data.List.Perm.Subperm
import Mathlib.Data.List.Range

/-!
# What restored results are

* `Layout.Filled`        slots that hold all results given so far, each at its position;
* `Layout.restore_ok`    restored results are as many as there are positions, and every result is at
                         its position;
* `Layout.restore_of_perm`
                         results are restored if they fit a layout that has every position once.
-/

namespace Coalesce

/-- a checked computation goes through just if both its steps do -/
theorem except_bind_eq_ok {ε α β : Type} {x : Except ε α} {f : α → Except ε β} {b : β} :
    (x >>= f) = .ok b ↔ ∃ a, x = .ok a ∧ f a = .ok b := by
  cases x with
  | error e =>
    constructor
    · intro h
      cases h
    · rintro ⟨a, h, _⟩
      cases h
  | ok a =>
    constructor
    · exact fun h => ⟨a, rfl, h⟩
    · rintro ⟨a', h, hf⟩
      cases h
      exact hf

/-- and it fails if one of them does -/
theorem except_bind_eq_error {ε α β : Type} {x : Except ε α} {f : α → Except ε β} {e : ε} :
    (x >>= f) = .error e ↔ x = .error e ∨ ∃ a, x = .ok a ∧ f a = .error e := by
  cases x with
  | error e' =>
    constructor
    · intro h
      cases h
      exact .inl rfl
    · rintro (h | ⟨a, h, _⟩)
      · cases h
        rfl
      · cases h
  | ok a =>
    constructor
    · exact fun h => .inr ⟨a, rfl, h⟩
    · rintro (h | ⟨a', h, hf⟩)
      · cases h
      · cases h
        exact hf

/-- as many different positions as there are below a bound -/
theorem perm_range {positions : List Nat} {n : Nat} (hnodup : positions.Nodup)
    (hlt : ∀ i ∈ positions, i < n) (hlen : positions.length = n) :
    positions.Perm (List.range n) := by
  have hsub : positions.Subperm (List.range n) :=
    hnodup.subperm fun i hi => List.mem_range.mpr (hlt i hi)
  refine hsub.perm_of_length_le ?_
  rw [List.length_range, hlen]

namespace Layout

variable {α : Type}

theorem put_eq_ok {slots slots' : List (Option α)} {i : Nat} {r : α} :
    put slots i r = .ok slots' ↔ slots[i]? = some none ∧ slots' = slots.set i (some r) := by
  unfold put
  constructor
  · intro h
    split at h
    · rename_i hfree
      cases h
      exact ⟨hfree, rfl⟩
    · cases h
  · rintro ⟨hfree, rfl⟩
    rw [hfree]

theorem putAll_cons (slots : List (Option α)) (i : Nat) (r : α) (rest : List (Nat × α)) :
    putAll slots ((i, r) :: rest) = (put slots i r >>= fun slots => putAll slots rest) := rfl

theorem putAll_append (slots : List (Option α)) (first second : List (Nat × α)) :
    putAll slots (first ++ second)
      = (putAll slots first >>= fun slots => putAll slots second) := by
  induction first generalizing slots with
  | nil => rfl
  | cons p rest ih =>
    obtain ⟨i, r⟩ := p
    rw [List.cons_append, putAll_cons, putAll_cons]
    cases put slots i r with
    | error e => rfl
    | ok slots' => exact ih slots'

/-- Slots that hold some results, and whatever was in them before. -/
structure Filled (before after : List (Option α)) (results : List (Nat × α)) : Prop where
  length : after.length = before.length
  placed : ∀ p ∈ results, after[p.1]? = some (some p.2)
  kept : ∀ (i : Nat) (r : α), before[i]? = some (some r) → after[i]? = some (some r)

theorem filled_of_putAll {slots slots' : List (Option α)} {results : List (Nat × α)}
    (h : putAll slots results = .ok slots') : Filled slots slots' results := by
  induction results generalizing slots with
  | nil =>
    cases h
    exact ⟨rfl, fun p hp => absurd hp List.not_mem_nil, fun i r hr => hr⟩
  | cons p rest ih =>
    obtain ⟨i, r⟩ := p
    rw [putAll_cons] at h
    obtain ⟨mid, hput, hrest⟩ := except_bind_eq_ok.mp h
    obtain ⟨hfree, rfl⟩ := put_eq_ok.mp hput
    have hf := ih hrest
    have hi : i < slots.length := (List.getElem?_eq_some_iff.mp hfree).1
    have hplaced : slots'[i]? = some (some r) :=
      hf.kept i r (by rw [List.getElem?_set, if_pos rfl, if_pos hi])
    refine ⟨by rw [hf.length, List.length_set], ?_, ?_⟩
    · intro q hq
      rcases List.mem_cons.mp hq with rfl | hq
      · exact hplaced
      · exact hf.placed q hq
    · intro j s hj
      have hij : i ≠ j := by
        rintro rfl
        rw [hfree] at hj
        cases hj
      exact hf.kept j s (by rw [List.getElem?_set, if_neg hij]; exact hj)

/-- the results of all groups with their positions -/
def placements (groups : List (List Nat)) (results : List (List α)) : List (Nat × α) :=
  (groups.zip results).flatMap fun p => p.1.zip p.2

theorem putGroups_eq_ok {slots slots' : List (Option α)} {pairs : List (List Nat × List α)} :
    putGroups slots pairs = .ok slots' ↔
      (∀ p ∈ pairs, p.1.length = p.2.length) ∧
        putAll slots (pairs.flatMap fun p => p.1.zip p.2) = .ok slots' := by
  induction pairs generalizing slots with
  | nil => exact ⟨fun h => ⟨fun p hp => absurd hp List.not_mem_nil, h⟩, fun h => h.2⟩
  | cons p rest ih =>
    obtain ⟨group, results⟩ := p
    rw [List.flatMap_cons, putAll_append, except_bind_eq_ok, List.forall_mem_cons]
    unfold putGroups
    split
    · rename_i hlen
      constructor
      · intro h
        cases h
      · exact fun h => absurd h.1.1 hlen
    · rename_i hlen
      rw [except_bind_eq_ok]
      constructor
      · rintro ⟨mid, hput, hrest⟩
        obtain ⟨hall, hput'⟩ := ih.mp hrest
        exact ⟨⟨Decidable.not_not.mp hlen, hall⟩, mid, hput, hput'⟩
      · rintro ⟨⟨_, hall⟩, mid, hput, hput'⟩
        exact ⟨mid, hput, ih.mpr ⟨hall, hput'⟩⟩

theorem collect_eq_some {slots : List (Option α)} {values : List α} :
    collect slots = some values ↔ slots = values.map some := by
  induction slots generalizing values with
  | nil => cases values <;> simp [collect]
  | cons o rest ih =>
    cases o with
    | none => cases values <;> simp [collect]
    | some a =>
      cases values with
      | nil => simp [collect]
      | cons v vs => simp [collect, ih, and_comm]

/-- Restored results are the given ones, each at its position. -/
theorem restore_ok {l : Layout} {results : List (List α)} {values : List α}
    (h : l.restore results = .ok values) :
    results.length = l.groups.length ∧
      (∀ p ∈ l.groups.zip results, p.1.length = p.2.length) ∧
      values.length = l.size ∧
      ∀ p ∈ placements l.groups results, values[p.1]? = some p.2 := by
  unfold restore at h
  split at h
  · cases h
  · rename_i hlen
    obtain ⟨slots, hput, hcollect⟩ := except_bind_eq_ok.mp h
    have hvalues : slots = values.map some := by
      split at hcollect
      · rename_i vs hvs
        cases hcollect
        exact collect_eq_some.mp hvs
      · cases hcollect
    obtain ⟨hshape, hall⟩ := putGroups_eq_ok.mp hput
    have hf := filled_of_putAll hall
    have hlength := hf.length
    rw [hvalues, List.length_map, List.length_replicate] at hlength
    refine ⟨Decidable.not_not.mp hlen, hshape, hlength, fun p hp => ?_⟩
    have hp' := hf.placed p hp
    rw [hvalues, List.getElem?_map] at hp'
    obtain ⟨v, hv, hvp⟩ := Option.map_eq_some_iff.mp hp'
    rw [hv, Option.some.inj hvp]

/-! ## layouts that have every position once -/

/-- Free slots take results for different positions. -/
theorem putAll_of_nodup {slots : List (Option α)} {results : List (Nat × α)}
    (distinct : (results.map Prod.fst).Nodup) (free : ∀ p ∈ results, slots[p.1]? = some none) :
    ∃ slots', putAll slots results = .ok slots' := by
  induction results generalizing slots with
  | nil => exact ⟨slots, rfl⟩
  | cons p rest ih =>
    obtain ⟨i, r⟩ := p
    obtain ⟨hi, hrest⟩ := List.nodup_cons.mp distinct
    have hput : put slots i r = .ok (slots.set i (some r)) :=
      put_eq_ok.mpr ⟨free _ List.mem_cons_self, rfl⟩
    -- the slots of the others are still free
    have hfree : ∀ p ∈ rest, (slots.set i (some r))[p.1]? = some none := by
      intro p hp
      have hne : i ≠ p.1 := by
        rintro rfl
        exact hi (List.mem_map.mpr ⟨p, hp, rfl⟩)
      rw [List.getElem?_set, if_neg hne]
      exact free p (List.mem_cons_of_mem _ hp)
    obtain ⟨slots', hslots'⟩ := ih hrest hfree
    refine ⟨slots', ?_⟩
    rw [putAll_cons, hput]
    exact hslots'

theorem exists_values {slots : List (Option α)} (h : ∀ o ∈ slots, ∃ a, o = some a) :
    ∃ values : List α, slots = values.map some := by
  induction slots with
  | nil => exact ⟨[], rfl⟩
  | cons o rest ih =>
    obtain ⟨a, rfl⟩ := h o List.mem_cons_self
    obtain ⟨values, rfl⟩ := ih fun o ho => h o (List.mem_cons_of_mem _ ho)
    exact ⟨a :: values, rfl⟩

/-- results that fit the groups are placed at the positions of the layout -/
theorem placements_positions {groups : List (List Nat)} {results : List (List α)}
    (shape : results.map List.length = groups.map List.length) :
    (∀ p ∈ groups.zip results, p.1.length = p.2.length) ∧
      (placements groups results).map Prod.fst = groups.flatten := by
  induction groups generalizing results with
  | nil => exact ⟨fun p hp => absurd hp List.not_mem_nil, rfl⟩
  | cons g gs ih =>
    cases results with
    | nil => cases shape
    | cons r rs =>
      obtain ⟨hlen, hrest⟩ := List.cons.inj shape
      obtain ⟨hshape, hflat⟩ := ih hrest
      refine ⟨List.forall_mem_cons.mpr ⟨hlen.symm, hshape⟩, ?_⟩
      show ((g.zip r) ++ placements gs rs).map Prod.fst = g ++ gs.flatten
      rw [List.map_append, hflat, List.map_fst_zip (Nat.le_of_eq hlen.symm)]

/-- Results that fit a layout are restored, if the layout has every position once. -/
theorem restore_of_perm {l : Layout} {results : List (List α)}
    (perm : l.groups.flatten.Perm (List.range l.size))
    (shape : results.map List.length = l.groups.map List.length) :
    ∃ values, l.restore results = .ok values := by
  obtain ⟨hshape, hpositions⟩ := placements_positions shape
  have hcount : results.length = l.groups.length := by
    simpa using congrArg List.length shape
  have hfree : ∀ p ∈ placements l.groups results,
      (List.replicate l.size (none : Option α))[p.1]? = some none := by
    intro p hp
    have hmem : p.1 ∈ l.groups.flatten := by
      rw [← hpositions]
      exact List.mem_map_of_mem hp
    rw [List.getElem?_replicate, if_pos (List.mem_range.mp (perm.mem_iff.mp hmem))]
  obtain ⟨slots, hslots⟩ := putAll_of_nodup (by
    rw [hpositions]
    exact perm.nodup_iff.mpr List.nodup_range) hfree
  have hfilled := filled_of_putAll hslots
  -- no slot is left free
  obtain ⟨values, hvalues⟩ : ∃ values : List α, slots = values.map some := by
    refine exists_values fun o ho => ?_
    obtain ⟨i, hi⟩ := List.mem_iff_getElem?.mp ho
    have hlt : i < l.size := by
      rw [← List.length_replicate (n := l.size) (a := (none : Option α)), ← hfilled.length]
      exact (List.getElem?_eq_some_iff.mp hi).1
    have hmem : i ∈ (placements l.groups results).map Prod.fst := by
      rw [hpositions]
      exact perm.mem_iff.mpr (List.mem_range.mpr hlt)
    obtain ⟨p, hp, rfl⟩ := List.mem_map.mp hmem
    exact ⟨p.2, Option.some.inj (hi.symm.trans (hfilled.placed p hp))⟩
  refine ⟨values, ?_⟩
  unfold restore
  rw [if_neg (not_not.mpr hcount), except_bind_eq_ok]
  refine ⟨slots, putGroups_eq_ok.mpr ⟨hshape, hslots⟩, ?_⟩
  rw [collect_eq_some.mpr hvalues]

theorem mem_placements {groups : List (List Nat)} {results : List (List α)} {k j i : Nat}
    {group : List Nat} {part : List α} {r : α} (hg : groups[k]? = some group)
    (hr : results[k]? = some part) (hi : group[j]? = some i) (hj : part[j]? = some r) :
    (i, r) ∈ placements groups results := by
  refine List.mem_flatMap.mpr ⟨(group, part), ?_, ?_⟩
  · exact List.mem_of_getElem? (List.getElem?_zip_eq_some.mpr ⟨hg, hr⟩)
  · exact List.mem_of_getElem? (List.getElem?_zip_eq_some.mpr ⟨hi, hj⟩)

end Layout

end Coalesce
