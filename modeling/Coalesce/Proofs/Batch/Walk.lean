import Coalesce.Batch.Partition
import Mathlib.Data.List.Induction
import Mathlib.Data.List.Basic

/-!
# What a walk keeps

* `Grouping.place_cases`     an item opens a batch of its own, takes over the place of a full one,
                             or joins one that has room;
* `Grouping.Tidy`            the batches so far: every item once, none of them empty, entries and
                             batches in the order of arrival, and every open place is a batch;
* `Grouping.walk_tidy`       a walk over any list stays tidy, under any grouping;
* `Grouping.partition_eq_walk`
                             without clusters a partition is what the walk leaves, also for the
                             lists that are too short to be walked.

Nothing is asked of the equality here: it may be any relation.
-/

set_option linter.unusedSectionVars false

namespace Coalesce

variable {α κ σ : Type}

/-! ## entries -/

theorem entries_indices (items : List α) :
    (entries items).map Entry.index = List.range items.length := by
  unfold entries
  rw [List.map_map]
  show items.zipIdx.map Prod.snd = _
  rw [List.zipIdx_map_snd, List.range_eq_range']

theorem entries_values (items : List α) : (entries items).map Entry.value = items := by
  unfold entries
  rw [List.map_map]
  exact List.zipIdx_map_fst 0 items

theorem entries_length (items : List α) : (entries items).length = items.length := by
  have h := congrArg List.length (entries_indices items)
  rwa [List.length_map, List.length_range] at h

/-- entries as they are taken: every one behind those before it -/
def InOrder (es : List (Entry α)) : Prop := es.Pairwise fun x y => x.index < y.index

theorem entries_inOrder (items : List α) : InOrder (entries items) := by
  have h : ((entries items).map Entry.index).Pairwise (· < ·) := by
    rw [entries_indices]
    exact List.pairwise_lt_range
  exact List.pairwise_map.mp h

theorem InOrder.snoc {es : List (Entry α)} {e : Entry α} (h : InOrder (es ++ [e])) :
    InOrder es ∧ ∀ x ∈ es, x.index < e.index := by
  obtain ⟨hes, _, hlt⟩ := List.pairwise_append.mp h
  exact ⟨hes, fun x hx => hlt x hx e (List.mem_singleton_self e)⟩

/-! ## batches that grow -/

theorem flatten_modify_perm (batches : List (Batch α)) (id : Nat) (e : Entry α)
    (h : id < batches.length) :
    (batches.modify id (· ++ [e])).flatten.Perm (batches.flatten ++ [e]) := by
  induction batches generalizing id with
  | nil => exact absurd h (Nat.not_lt_zero _)
  | cons b rest ih =>
    cases id with
    | zero =>
      rw [List.modify_zero_cons, List.flatten_cons, List.flatten_cons, List.append_assoc,
        List.append_assoc]
      exact List.Perm.append_left b List.perm_append_comm
    | succ id =>
      rw [List.modify_succ_cons, List.flatten_cons, List.flatten_cons, List.append_assoc]
      exact List.Perm.append_left b (ih id (Nat.lt_of_succ_lt_succ h))

theorem flatten_snoc (batches : List (Batch α)) (e : Entry α) :
    (batches ++ [[e]]).flatten = batches.flatten ++ [e] := by
  rw [List.flatten_append]
  rfl

theorem head?_snoc {b : Batch α} (h : b ≠ []) (e : Entry α) : (b ++ [e]).head? = b.head? := by
  cases b with
  | nil => exact absurd rfl h
  | cons x rest => rfl

/-- batches in the order of their first entries -/
def FirstsInOrder (batches : List (Batch α)) : Prop :=
  batches.Pairwise fun b c => ∀ x ∈ b.head?, ∀ y ∈ c.head?, x.index < y.index

theorem FirstsInOrder.modify {batches : List (Batch α)} (h : FirstsInOrder batches)
    (hne : ∀ b ∈ batches, b ≠ []) (id : Nat) (e : Entry α) :
    FirstsInOrder (batches.modify id (· ++ [e])) := by
  have firsts : ∀ bs : List (Batch α), (∀ b ∈ bs, b ≠ []) → ∀ id,
      (bs.modify id (· ++ [e])).map List.head? = bs.map List.head? := by
    intro bs
    induction bs with
    | nil => intro _ id; rw [List.modify_nil]
    | cons b rest ih =>
      intro hbs id
      cases id with
      | zero =>
        rw [List.modify_zero_cons, List.map_cons, List.map_cons,
          head?_snoc (hbs b (List.mem_cons_self ..))]
      | succ id =>
        rw [List.modify_succ_cons, List.map_cons, List.map_cons,
          ih (fun c hc => hbs c (List.mem_cons_of_mem _ hc)) id]
  let before (o p : Option (Entry α)) : Prop := ∀ x ∈ o, ∀ y ∈ p, x.index < y.index
  have hmap : ∀ bs : List (Batch α), FirstsInOrder bs ↔ (bs.map List.head?).Pairwise before :=
    fun bs => (List.pairwise_map (R := before)).symm
  rw [hmap, firsts batches hne id, ← hmap]
  exact h

namespace Grouping

variable [DecidableEq κ] [DecidableEq σ]

/-! ## one item -/

/-- the places that are open to an item -/
def openSlots (g : Grouping α κ σ) (p : Progress α κ σ) (a : α) : List (κ × Nat) :=
  if p.series = some (g.series a) then p.slots else []

theorem mem_of_mem_openSlots {g : Grouping α κ σ} {p : Progress α κ σ} {a : α} {s : κ × Nat}
    (h : s ∈ g.openSlots p a) : s ∈ p.slots := by
  unfold openSlots at h
  split at h
  · exact h
  · exact absurd h (List.not_mem_nil)

theorem series_of_mem_openSlots {g : Grouping α κ σ} {p : Progress α κ σ} {a : α} {s : κ × Nat}
    (h : s ∈ g.openSlots p a) : p.series = some (g.series a) := by
  by_contra hne
  unfold openSlots at h
  rw [if_neg hne] at h
  exact absurd h List.not_mem_nil

theorem openSlots_of_series {g : Grouping α κ σ} {p : Progress α κ σ} {a : α}
    (h : p.series = some (g.series a)) : g.openSlots p a = p.slots :=
  if_pos h

theorem key_of_accepts {g : Grouping α κ σ} {batches : List (Batch α)} {a : α} {s : κ × Nat}
    (h : g.accepts batches a s = true) : s.1 = g.key a := by
  unfold accepts at h
  exact of_decide_eq_true (Bool.and_eq_true_iff.mp h).1

/-- `place`, in terms of the open places -/
theorem place_eq (g : Grouping α κ σ) (p : Progress α κ σ) (e : Entry α) :
    g.place p e =
      match (g.openSlots p e.value).findIdx? (g.accepts p.batches e.value) with
      | none => ⟨p.batches ++ [[e]], g.openSlots p e.value ++ [(g.key e.value, p.batches.length)],
          some (g.series e.value)⟩
      | some i =>
        match (g.openSlots p e.value)[i]? with
        | none => p
        | some (k, id) =>
          if g.isFull p.batches id then
            ⟨p.batches ++ [[e]], (g.openSlots p e.value).set i (k, p.batches.length),
              some (g.series e.value)⟩
          else ⟨p.batches.modify id (· ++ [e]), g.openSlots p e.value, some (g.series e.value)⟩ :=
  rfl

/-- What an item does. -/
theorem place_cases (g : Grouping α κ σ) (p : Progress α κ σ) (e : Entry α) :
    ((∀ s ∈ g.openSlots p e.value, g.accepts p.batches e.value s = false) ∧
      g.place p e = ⟨p.batches ++ [[e]],
        g.openSlots p e.value ++ [(g.key e.value, p.batches.length)], some (g.series e.value)⟩) ∨
    ∃ i k id, (g.openSlots p e.value)[i]? = some (k, id) ∧
      g.accepts p.batches e.value (k, id) = true ∧
      (∀ j s, j < i → (g.openSlots p e.value)[j]? = some s →
        g.accepts p.batches e.value s = false) ∧
      ((g.isFull p.batches id = true ∧
          g.place p e = ⟨p.batches ++ [[e]],
            (g.openSlots p e.value).set i (k, p.batches.length), some (g.series e.value)⟩) ∨
        (g.isFull p.batches id = false ∧
          g.place p e = ⟨p.batches.modify id (· ++ [e]), g.openSlots p e.value,
            some (g.series e.value)⟩)) := by
  rw [place_eq]
  cases hfind : (g.openSlots p e.value).findIdx? (g.accepts p.batches e.value) with
  | none =>
    refine Or.inl ⟨fun s hs => ?_, rfl⟩
    have := List.findIdx?_eq_none_iff.mp hfind s hs
    simpa using this
  | some i =>
    obtain ⟨hi, hacc, hbefore⟩ := List.findIdx?_eq_some_iff_getElem.mp hfind
    have hget : (g.openSlots p e.value)[i]? = some (g.openSlots p e.value)[i] :=
      List.getElem?_eq_getElem hi
    refine Or.inr ⟨i, (g.openSlots p e.value)[i].1, (g.openSlots p e.value)[i].2, hget, hacc,
      ?_, ?_⟩
    · intro j s hj hs
      obtain ⟨hjl, rfl⟩ := List.getElem?_eq_some_iff.mp hs
      have := hbefore j hj
      simpa using this
    · dsimp only
      rw [hget]
      dsimp only
      cases hfull : g.isFull p.batches (g.openSlots p e.value)[i].2 with
      | true => exact Or.inl ⟨rfl, if_pos rfl⟩
      | false => exact Or.inr ⟨rfl, if_neg (by simp)⟩

/-! ## the walk -/

/-- The batches made of some entries are in order. -/
structure Tidy (es : List (Entry α)) (p : Progress α κ σ) : Prop where
  perm : p.batches.flatten.Perm es
  nonempty : ∀ b ∈ p.batches, b ≠ []
  inOrder : ∀ b ∈ p.batches, InOrder b
  firsts : FirstsInOrder p.batches
  slots : ∀ s ∈ p.slots, s.2 < p.batches.length

theorem Tidy.mem {es : List (Entry α)} {p : Progress α κ σ} (h : Tidy es p) {b : Batch α}
    (hb : b ∈ p.batches) {x : Entry α} (hx : x ∈ b) : x ∈ es :=
  h.perm.mem_iff.mp (List.mem_flatten.mpr ⟨b, hb, hx⟩)

theorem tidy_empty : Tidy ([] : List (Entry α)) (Progress.empty : Progress α κ σ) where
  perm := List.Perm.refl _
  nonempty _ h := absurd h List.not_mem_nil
  inOrder _ h := absurd h List.not_mem_nil
  firsts := List.Pairwise.nil
  slots _ h := absurd h List.not_mem_nil

/-- a new batch for the entry -/
theorem Tidy.opened {es : List (Entry α)} {p : Progress α κ σ} (h : Tidy es p) {e : Entry α}
    (hlt : ∀ x ∈ es, x.index < e.index) {slots : List (κ × Nat)} {series : Option σ}
    (hslots : ∀ s ∈ slots, s ∈ p.slots ∨ s.2 = p.batches.length) :
    Tidy (es ++ [e]) (⟨p.batches ++ [[e]], slots, series⟩ : Progress α κ σ) where
  perm := by
    show (p.batches ++ [[e]]).flatten.Perm _
    rw [flatten_snoc]
    exact h.perm.append_right [e]
  nonempty b hb := by
    rcases List.mem_append.mp hb with hb | hb
    · exact h.nonempty b hb
    · rw [List.mem_singleton.mp hb]
      exact List.cons_ne_nil _ _
  inOrder b hb := by
    rcases List.mem_append.mp hb with hb | hb
    · exact h.inOrder b hb
    · rw [List.mem_singleton.mp hb]
      exact List.pairwise_singleton _ e
  firsts := by
    refine List.pairwise_append.mpr ⟨h.firsts, List.pairwise_singleton _ _, ?_⟩
    intro b hb c hc x hx y hy
    rw [List.mem_singleton.mp hc] at hy
    cases Option.some.inj hy
    exact hlt x (h.mem hb (List.mem_of_mem_head? hx))
  slots s hs := by
    show s.2 < (p.batches ++ [[e]]).length
    rw [List.length_append, List.length_singleton]
    rcases hslots s hs with hs | hs
    · exact Nat.lt_succ_of_lt (h.slots s hs)
    · omega

/-- an entry joins a batch -/
theorem Tidy.joined {es : List (Entry α)} {p : Progress α κ σ} (h : Tidy es p) {e : Entry α}
    (hlt : ∀ x ∈ es, x.index < e.index) {id : Nat} (hid : id < p.batches.length)
    {slots : List (κ × Nat)} {series : Option σ} (hslots : ∀ s ∈ slots, s ∈ p.slots) :
    Tidy (es ++ [e]) (⟨p.batches.modify id (· ++ [e]), slots, series⟩ : Progress α κ σ) where
  perm := (flatten_modify_perm p.batches id e hid).trans (h.perm.append_right [e])
  nonempty b hb := by
    obtain ⟨i, hi⟩ := List.mem_iff_getElem?.mp hb
    rw [List.getElem?_modify] at hi
    obtain ⟨c, hc, rfl⟩ := Option.map_eq_some_iff.mp hi
    split
    · exact List.append_ne_nil_of_right_ne_nil _ (List.cons_ne_nil _ _)
    · exact h.nonempty c (List.mem_of_getElem? hc)
  inOrder b hb := by
    obtain ⟨i, hi⟩ := List.mem_iff_getElem?.mp hb
    rw [List.getElem?_modify] at hi
    obtain ⟨c, hc, rfl⟩ := Option.map_eq_some_iff.mp hi
    have hcm := List.mem_of_getElem? hc
    split
    · refine List.pairwise_append.mpr ⟨h.inOrder c hcm, List.pairwise_singleton _ e, ?_⟩
      intro x hx y hy
      rw [List.mem_singleton.mp hy]
      exact hlt x (h.mem hcm hx)
    · exact h.inOrder c hcm
  firsts := h.firsts.modify h.nonempty id e
  slots s hs := by
    show s.2 < (p.batches.modify id (· ++ [e])).length
    rw [List.length_modify]
    exact h.slots s (hslots s hs)

/-- Placing an entry behind all others keeps batches tidy. -/
theorem Tidy.place {g : Grouping α κ σ} {es : List (Entry α)} {p : Progress α κ σ}
    (h : Tidy es p) {e : Entry α} (hlt : ∀ x ∈ es, x.index < e.index) :
    Tidy (es ++ [e]) (g.place p e) := by
  have hopen : ∀ s ∈ g.openSlots p e.value, s ∈ p.slots := fun s hs => mem_of_mem_openSlots hs
  obtain ⟨_, hp⟩ | ⟨i, k, id, hi, _, _, ⟨_, hp⟩ | ⟨_, hp⟩⟩ := g.place_cases p e
  · rw [hp]
    refine h.opened hlt fun s hs => ?_
    rcases List.mem_append.mp hs with hs | hs
    · exact Or.inl (hopen s hs)
    · rw [List.mem_singleton.mp hs]
      exact Or.inr rfl
  · rw [hp]
    refine h.opened hlt fun s hs => ?_
    rcases List.mem_or_eq_of_mem_set hs with hs | hs
    · exact Or.inl (hopen s hs)
    · rw [hs]
      exact Or.inr rfl
  · rw [hp]
    exact h.joined hlt (h.slots (k, id) (hopen _ (List.mem_of_getElem? hi))) hopen

theorem walk_tidy (g : Grouping α κ σ) {es : List (Entry α)} (h : InOrder es) :
    Tidy es (es.foldl g.place .empty) := by
  induction es using List.reverseRecOn with
  | nil => exact tidy_empty
  | append_singleton es e ih =>
    obtain ⟨hes, hlt⟩ := h.snoc
    rw [List.foldl_append]
    exact (ih hes).place hlt

theorem walk_singleton (g : Grouping α κ σ) (e : Entry α) : g.walk [e] = [[e]] := by
  show (g.place .empty e).batches = [[e]]
  obtain ⟨_, hp⟩ | ⟨i, k, id, hi, _⟩ := g.place_cases .empty e
  · rw [hp]
    rfl
  · exact absurd (mem_of_mem_openSlots (List.mem_of_getElem? hi)) List.not_mem_nil

/-- Without clusters the short cut for short lists makes no difference. -/
theorem partition_eq_walk (g : Grouping α κ σ) (h : g.clustering = none) (items : List α) :
    g.partition items = g.walk (entries items) := by
  unfold partition
  dsimp only
  rw [h]
  split
  · rename_i hlen
    rcases hes : entries items with _ | ⟨e, _ | ⟨e', rest⟩⟩
    · rfl
    · exact (g.walk_singleton e).symm
    · rw [hes, List.length_cons, List.length_cons] at hlen
      omega
  · rfl

/-- The batches hold every entry once, whatever the grouping. -/
theorem walk_perm (g : Grouping α κ σ) {es : List (Entry α)} (h : InOrder es) :
    (g.walk es).flatten.Perm es :=
  (g.walk_tidy h).perm

end Grouping

end Coalesce
