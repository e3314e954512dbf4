import Coalesce.Proofs.Batch.Ranks
import Mathlib.Data.Nat.ModEq

/-!
# The batches of a partition

* `Grouping.Stands`           the batch of an open place is the last block of its class;
* `Grouping.Exact`            the batches so far are the classes of `Mates`, and the open places are
                              those of the last run, one for each class;
* `Grouping.Exact.place`      an entry behind all others keeps this, by the three cases of
                              `place_cases`;
* `Grouping.partition_exact`  the batches of a partition are the classes of `Mates`.

The first entry of a batch may stand for all of them, as the finer equality is an equivalence, and
at most one open place takes an entry.
-/

set_option linter.unusedSectionVars false

namespace Coalesce

namespace Grouping

variable {α κ σ : Type} [DecidableEq κ] [DecidableEq σ]

/-! ## open places -/

/-- the entry that stands for the batch of a place -/
def standing (batches : List (Batch α)) (s : κ × Nat) : Option (Entry α) :=
  (batches[s.2]?).bind List.head?

theorem accepts_eq_alike {g : Grouping α κ σ} {batches : List (Batch α)} {s : κ × Nat}
    {f : Entry α} (hf : standing batches s = some f) (hk : s.1 = g.key f.value) (a : α) :
    g.accepts batches a s = g.alike f.value a := by
  unfold accepts alike
  rw [hk]
  cases g.equality with
  | none => rfl
  | some same =>
    have hrep : (batches[s.2]?).bind Batch.representative? = some f.value := by
      unfold standing at hf
      obtain ⟨b, hb, hbf⟩ := Option.bind_eq_some_iff.mp hf
      rw [hb]
      show b.head?.map Entry.value = _
      rw [hbf]
      rfl
    simp only [hrep]

/-- The batch of a place holds the last block of its class: the entries from the rank of the first
one on. -/
structure Stands (g : Grouping α κ σ) (size : Nat) (es : List (Entry α))
    (batches : List (Batch α)) (s : κ × Nat) (b : Batch α) (f : Entry α) : Prop where
  batch : batches[s.2]? = some b
  first : b.head? = some f
  key : s.1 = g.key f.value
  ongoing : g.Ongoing es f
  starts : size ∣ g.rank es f
  tally : g.tally es f.value = g.rank es f + b.length
  room : size = 0 ∨ b.length ≤ size

theorem Stands.standing {g : Grouping α κ σ} {size : Nat} {es : List (Entry α)}
    {batches : List (Batch α)} {s : κ × Nat} {b : Batch α} {f : Entry α}
    (h : g.Stands size es batches s b f) : standing batches s = some f := by
  unfold Grouping.standing
  rw [h.batch]
  exact h.first

theorem Stands.mem {g : Grouping α κ σ} {size : Nat} {es : List (Entry α)}
    {p : Progress α κ σ} {s : κ × Nat} {b : Batch α} {f : Entry α}
    (h : g.Stands size es p.batches s b f) (ht : Tidy es p) : f ∈ es :=
  ht.mem (List.mem_of_getElem? h.batch) (List.mem_of_mem_head? h.first)

structure Exact (g : Grouping α κ σ) (bound : Option Nat) (es : List (Entry α))
    (p : Progress α κ σ) : Prop extends Tidy es p where
  mates : ∀ (i j : Nat) (b c : Batch α), p.batches[i]? = some b → p.batches[j]? = some c →
    ∀ x ∈ b, ∀ y ∈ c, (g.Mates bound es x y ↔ i = j)
  series : ∀ x ∈ es, g.Ongoing es x → p.series = some (g.series x.value)
  stands : ∀ s ∈ p.slots, ∃ b f, g.Stands (bound.getD 0) es p.batches s b f
  distinct : ∀ (i j : Nat) (s t : κ × Nat) (f h : Entry α),
    p.slots[i]? = some s → p.slots[j]? = some t →
    standing p.batches s = some f → standing p.batches t = some h →
    g.alike f.value h.value = true → i = j
  complete : ∀ x ∈ es, g.Ongoing es x →
    ∃ s ∈ p.slots, ∃ f, standing p.batches s = some f ∧ g.alike f.value x.value = true

theorem exact_empty (g : Grouping α κ σ) (bound : Option Nat) :
    g.Exact bound [] .empty where
  toTidy := tidy_empty
  mates _ _ _ _ h := absurd h (by simp [Progress.empty])
  series _ h := absurd h List.not_mem_nil
  stands _ h := absurd h List.not_mem_nil
  distinct _ _ _ _ _ _ h := absurd h (by simp [Progress.empty])
  complete _ h := absurd h List.not_mem_nil

section
variable {g : Grouping α κ σ} {bound : Option Nat} {es : List (Entry α)} {p : Progress α κ σ}
  {e : Entry α} (h : g.Exact bound es p) (hlt : ∀ x ∈ es, x.index < e.index)
include h hlt

theorem Exact.open_stands {s : κ × Nat} (hs : s ∈ g.openSlots p e.value) :
    ∃ b f, g.Stands (bound.getD 0) es p.batches s b f ∧ f ∈ es ∧ g.Ongoing (es ++ [e]) f := by
  obtain ⟨b, f, hf⟩ := h.stands s (mem_of_mem_openSlots hs)
  have hmem : f ∈ es := hf.mem h.toTidy
  have heq : g.series e.value = g.series f.value :=
    Option.some.inj ((series_of_mem_openSlots hs).symm.trans (h.series f hmem hf.ongoing))
  exact ⟨b, f, hf, hmem, (ongoing_snoc hlt hmem).mpr ⟨hf.ongoing, heq⟩⟩

theorem Exact.open_complete {x : Entry α} (hx : x ∈ es) (hrun : g.Ongoing (es ++ [e]) x) :
    ∃ s ∈ g.openSlots p e.value, ∃ f, standing p.batches s = some f ∧
      g.alike f.value x.value = true := by
  obtain ⟨hox, heq⟩ := (ongoing_snoc hlt hx).mp hrun
  have hseries := h.series x hx hox
  rw [openSlots_of_series (by rw [hseries, heq])]
  exact h.complete x hx hox

theorem Exact.open_distinct {i j : Nat} {s t : κ × Nat} {f k : Entry α}
    (hi : (g.openSlots p e.value)[i]? = some s) (hj : (g.openSlots p e.value)[j]? = some t)
    (hf : standing p.batches s = some f) (hk : standing p.batches t = some k)
    (hfk : g.alike f.value k.value = true) : i = j := by
  unfold openSlots at hi hj
  split at hi
  · rename_i hs
    rw [if_pos hs] at hj
    exact h.distinct i j s t f k hi hj hf hk hfk
  · exact absurd hi (by simp)

theorem Exact.mates_opened (hg : g.Lawful)
    (alone : ∀ x ∈ es, ¬ g.Mates bound (es ++ [e]) x e) (i j : Nat) (b c : Batch α)
    (hi : (p.batches ++ [[e]])[i]? = some b) (hj : (p.batches ++ [[e]])[j]? = some c)
    (x : Entry α) (hx : x ∈ b) (y : Entry α) (hy : y ∈ c) :
    g.Mates bound (es ++ [e]) x y ↔ i = j := by
  have he : e ∈ es ++ [e] := List.mem_append_right _ (List.mem_singleton_self e)
  have hmem : ∀ {k : Nat} {d : Batch α} {z : Entry α}, p.batches[k]? = some d → z ∈ d → z ∈ es :=
    fun hd hz => h.mem (List.mem_of_getElem? hd) hz
  have hcases : ∀ {k : Nat} {d : Batch α}, (p.batches ++ [[e]])[k]? = some d →
      k < p.batches.length ∧ p.batches[k]? = some d ∨ k = p.batches.length ∧ d = [e] := by
    intro k d hd
    rw [List.getElem?_append] at hd
    split at hd
    · rename_i hk
      exact Or.inl ⟨hk, hd⟩
    · rename_i hk
      rw [List.getElem?_singleton] at hd
      split at hd
      · exact Or.inr ⟨by omega, (Option.some.inj hd).symm⟩
      · exact absurd hd (by simp)
  rcases hcases hi with ⟨hil, hi⟩ | ⟨rfl, rfl⟩ <;> rcases hcases hj with ⟨hjl, hj⟩ | ⟨rfl, rfl⟩
  · rw [mates_snoc hlt (hmem hi hx) (hmem hj hy)]
    exact h.mates i j b c hi hj x hx y hy
  · rw [List.mem_singleton.mp hy]
    exact ⟨fun hm => absurd hm (alone x (hmem hi hx)), fun hij => by omega⟩
  · rw [List.mem_singleton.mp hx]
    have hy' := hmem hj hy
    exact ⟨fun hm => absurd (hm.symm hg (List.mem_append_left _ hy')) (alone y hy'),
      fun hij => by omega⟩
  · rw [List.mem_singleton.mp hx, List.mem_singleton.mp hy]
    refine ⟨fun _ => rfl, fun _ => ⟨fun d hd h₁ h₂ => ?_, alike_refl hg _, rfl⟩⟩
    rcases List.mem_append.mp hd with hd | hd
    · have := hlt d hd
      omega
    · rw [List.mem_singleton.mp hd]

theorem Exact.mates_joined (hg : g.Lawful) {id : Nat} {b₀ : Batch α} {f : Entry α}
    (hb₀ : p.batches[id]? = some b₀) (hf : f ∈ b₀) (hfe : g.Mates bound (es ++ [e]) f e)
    (i j : Nat) (b c : Batch α) (hi : (p.batches.modify id (· ++ [e]))[i]? = some b)
    (hj : (p.batches.modify id (· ++ [e]))[j]? = some c)
    (x : Entry α) (hx : x ∈ b) (y : Entry α) (hy : y ∈ c) :
    g.Mates bound (es ++ [e]) x y ↔ i = j := by
  have he : e ∈ es ++ [e] := List.mem_append_right _ (List.mem_singleton_self e)
  have hmem : ∀ {k : Nat} {d : Batch α} {z : Entry α}, p.batches[k]? = some d → z ∈ d → z ∈ es :=
    fun hd hz => h.mem (List.mem_of_getElem? hd) hz
  -- the new entry may be replaced by the one that stands for its batch
  have hstand : ∀ {k : Nat} {d : Batch α} {z : Entry α},
      (p.batches.modify id (· ++ [e]))[k]? = some d → z ∈ d →
      ∃ d' z', p.batches[k]? = some d' ∧ z' ∈ d' ∧ z ∈ es ++ [e] ∧
        g.Mates bound (es ++ [e]) z z' := by
    intro k d z hd hz
    rw [List.getElem?_modify] at hd
    obtain ⟨d', hd', rfl⟩ := Option.map_eq_some_iff.mp hd
    have hold : z ∈ d' → ∃ d' z', p.batches[k]? = some d' ∧ z' ∈ d' ∧ z ∈ es ++ [e] ∧
        g.Mates bound (es ++ [e]) z z' := fun hz' => by
      have hzes := hmem hd' hz'
      refine ⟨d', z, hd', hz', List.mem_append_left _ hzes, ?_⟩
      exact (mates_snoc hlt hzes hzes).mpr ((h.mates k k d' d' hd' hd' z hz' z hz').mpr rfl)
    split at hz
    · rename_i hk
      rcases List.mem_append.mp hz with hz | hz
      · exact hold hz
      · rw [List.mem_singleton.mp hz]
        rw [← hk]
        exact ⟨b₀, f, hb₀, hf, he, hfe.symm hg he⟩
    · exact hold hz
  obtain ⟨b', x', hb', hx', hxes, hxx⟩ := hstand hi hx
  obtain ⟨c', y', hc', hy', hyes, hyy⟩ := hstand hj hy
  have hx'es := hmem hb' hx'
  have hy'es := hmem hc' hy'
  rw [← h.mates i j b' c' hb' hc' x' hx' y' hy', ← mates_snoc hlt hx'es hy'es]
  have hx'' : x' ∈ es ++ [e] := List.mem_append_left _ hx'es
  have hy'' : y' ∈ es ++ [e] := List.mem_append_left _ hy'es
  constructor
  · exact fun hm => (hxx.symm hg hx'').trans hg (hm.trans hg hyy hyes) hxes
  · exact fun hm => hxx.trans hg (hm.trans hg (hyy.symm hg hy'') hy'') hx''

/-- A new batch for the entry, in a place that is new or was the only one of its kind. -/
theorem Exact.fresh (hg : g.Lawful) {slots : List (κ × Nat)} {n : Nat}
    (alone : ∀ x ∈ es, ¬ g.Mates bound (es ++ [e]) x e)
    (starts : bound.getD 0 ∣ g.rank (es ++ [e]) e)
    (new : slots[n]? = some (g.key e.value, p.batches.length))
    (old : ∀ j s, j ≠ n → slots[j]? = some s → (g.openSlots p e.value)[j]? = some s ∧
      ∀ f, standing p.batches s = some f → g.alike f.value e.value = false)
    (all : ∀ s ∈ g.openSlots p e.value, ∀ f, standing p.batches s = some f →
      g.alike f.value e.value = false → s ∈ slots) :
    g.Exact bound (es ++ [e])
      ⟨p.batches ++ [[e]], slots, some (g.series e.value)⟩ := by
  have hlast : (p.batches ++ [[e]])[p.batches.length]? = some [e] := by
    rw [List.getElem?_append_right (Nat.le_refl _), Nat.sub_self]
    rfl
  have hnew : standing (p.batches ++ [[e]]) (g.key e.value, p.batches.length) = some e := by
    unfold standing
    rw [hlast]
    rfl
  have hkeep : ∀ {s : κ × Nat} {f : Entry α}, s ∈ g.openSlots p e.value →
      (standing (p.batches ++ [[e]]) s = some f ↔ standing p.batches s = some f) := by
    intro s f hs
    unfold standing
    rw [List.getElem?_append_left (h.slots s (mem_of_mem_openSlots hs))]
  have hslot : ∀ s ∈ slots, s = (g.key e.value, p.batches.length) ∨
      (s ∈ g.openSlots p e.value ∧
        ∀ f, standing p.batches s = some f → g.alike f.value e.value = false) := by
    intro s hs
    obtain ⟨j, hj⟩ := List.mem_iff_getElem?.mp hs
    by_cases hjn : j = n
    · rw [hjn, new] at hj
      exact Or.inl (Option.some.inj hj).symm
    · obtain ⟨hj', hf⟩ := old j s hjn hj
      exact Or.inr ⟨List.mem_of_getElem? hj', hf⟩
  exact
    { toTidy := h.toTidy.opened hlt fun s hs => (hslot s hs).elim
        (fun heq => Or.inr (by rw [heq])) (fun hold => Or.inl (mem_of_mem_openSlots hold.1))
      mates := h.mates_opened hlt hg alone
      series := fun x hx hrun => by
        have he : e ∈ es ++ [e] := List.mem_append_right _ (List.mem_singleton_self e)
        rcases List.mem_append.mp hx with hx | hx
        · exact congrArg some (hrun e he (Nat.le_of_lt (hlt x hx)))
        · rw [List.mem_singleton.mp hx]
      stands := fun s hs => by
        rcases hslot s hs with rfl | ⟨hopen, hne⟩
        · refine ⟨[e], e, hlast, rfl, rfl, ongoing_snoc_new hlt, starts, tally_snoc_new hlt hg, ?_⟩
          rw [List.length_singleton]
          omega
        · obtain ⟨b, f, hf, hfes, hrun⟩ := h.open_stands hlt hopen
          have hbatch := hf.batch
          have hnot : ¬ g.alike e.value f.value = true := fun hef => by
            have := hne f hf.standing
            rw [alike_symm hg hef] at this
            exact absurd this (by simp)
          refine ⟨b, f, ?_, hf.first, hf.key, hrun, ?_, ?_, hf.room⟩
          · show (p.batches ++ [[e]])[s.2]? = some b
            rw [List.getElem?_append_left (h.slots s (mem_of_mem_openSlots hopen))]
            exact hbatch
          · rw [rank_snoc hlt hfes]
            exact hf.starts
          · rw [tally_snoc hlt hfes hrun, rank_snoc hlt hfes, if_neg hnot]
            exact hf.tally
      distinct := fun i j s t f k hi hj hf hk hfk => by
        by_cases hin : i = n <;> by_cases hjn : j = n
        · rw [hin, hjn]
        · obtain ⟨hj', hne⟩ := old j t hjn hj
          rw [hin, new] at hi
          rw [← Option.some.inj hi, hnew] at hf
          have := hne k ((hkeep (List.mem_of_getElem? hj')).mp hk)
          rw [← Option.some.inj hf] at hfk
          rw [alike_symm hg hfk] at this
          exact absurd this (by simp)
        · obtain ⟨hi', hne⟩ := old i s hin hi
          rw [hjn, new] at hj
          rw [← Option.some.inj hj, hnew] at hk
          have := hne f ((hkeep (List.mem_of_getElem? hi')).mp hf)
          rw [← Option.some.inj hk] at hfk
          rw [hfk] at this
          exact absurd this (by simp)
        · obtain ⟨hi', _⟩ := old i s hin hi
          obtain ⟨hj', _⟩ := old j t hjn hj
          exact h.open_distinct hlt hi' hj' ((hkeep (List.mem_of_getElem? hi')).mp hf)
            ((hkeep (List.mem_of_getElem? hj')).mp hk) hfk
      complete := fun x hx hrun => by
        rcases List.mem_append.mp hx with hx | hx
        · obtain ⟨s, hs, f, hf, hfx⟩ := h.open_complete hlt hx hrun
          cases hfe : g.alike f.value e.value with
          | true =>
            exact ⟨_, List.mem_of_getElem? new, e, hnew,
              alike_trans hg (alike_symm hg hfe) hfx⟩
          | false => exact ⟨s, all s hs f hf hfe, f, (hkeep hs).mpr hf, hfx⟩
        · rw [List.mem_singleton.mp hx]
          exact ⟨_, List.mem_of_getElem? new, e, hnew, alike_refl hg _⟩ }

/-- The entry joins the batch of a place that is like it and has room. -/
theorem Exact.join (hg : g.Lawful) {i : Nat} {k : κ} {id : Nat} {b : Batch α} {f : Entry α}
    (hi : (g.openSlots p e.value)[i]? = some (k, id))
    (hf : g.Stands (bound.getD 0) es p.batches (k, id) b f) (hfe : g.alike f.value e.value = true)
    (room : bound.getD 0 = 0 ∨ b.length < bound.getD 0) :
    g.Exact bound (es ++ [e])
      ⟨p.batches.modify id (· ++ [e]), g.openSlots p e.value, some (g.series e.value)⟩ := by
  have hopen := List.mem_of_getElem? hi
  obtain ⟨b', f', hf', hfes, hrun⟩ := h.open_stands hlt hopen
  have hff : f' = f := Option.some.inj (hf'.standing.symm.trans hf.standing)
  rw [hff] at hfes hrun
  have hid : id < p.batches.length := h.slots _ (mem_of_mem_openSlots hopen)
  have hrank : g.rank (es ++ [e]) e = g.rank es f + b.length := by
    rw [rank_snoc_new_of_alike hlt hg hfes hrun hfe, hf.tally]
  have hmates : g.Mates bound (es ++ [e]) f e := by
    refine ⟨(sameRun_snoc_new hlt hfes).mpr hrun, hfe, ?_⟩
    rw [block_eq, block_eq, rank_snoc hlt hfes, hrank, Nat.add_div_of_dvd_right hf.starts]
    rcases room with h0 | hlen
    · rw [h0, Nat.div_zero, Nat.div_zero]
    · rw [Nat.div_eq_of_lt hlen, Nat.add_zero]
  have hmod : ∀ j, (p.batches.modify id (· ++ [e]))[j]?
      = (p.batches[j]?).map fun c => if id = j then c ++ [e] else c :=
    fun j => List.getElem?_modify ..
  have hkeep : ∀ s : κ × Nat,
      standing (p.batches.modify id (· ++ [e])) s = standing p.batches s := by
    intro s
    unfold standing
    rw [hmod]
    cases hc : p.batches[s.2]? with
    | none => rfl
    | some c =>
      show (if id = s.2 then c ++ [e] else c).head? = c.head?
      split
      · exact head?_snoc (h.nonempty c (List.mem_of_getElem? hc)) e
      · rfl
  exact
    { toTidy := h.toTidy.joined hlt hid fun s hs => mem_of_mem_openSlots hs
      mates := h.mates_joined hlt hg hf.batch (List.mem_of_mem_head? hf.first) hmates
      series := fun x hx hrun' => by
        have he : e ∈ es ++ [e] := List.mem_append_right _ (List.mem_singleton_self e)
        rcases List.mem_append.mp hx with hx | hx
        · exact congrArg some (hrun' e he (Nat.le_of_lt (hlt x hx)))
        · rw [List.mem_singleton.mp hx]
      stands := fun s hs => by
        obtain ⟨c, k', hc, hk'es, hrun'⟩ := h.open_stands hlt hs
        obtain ⟨j, hj⟩ := List.mem_iff_getElem?.mp hs
        by_cases hij : i = j
        · rw [← hij, hi] at hj
          cases Option.some.inj hj
          have hbatch : p.batches[id]? = some b := hf.batch
          refine ⟨b ++ [e], f, ?_, ?_, hf.key, hrun, ?_, ?_, ?_⟩
          · show (p.batches.modify id (· ++ [e]))[id]? = _
            rw [hmod, hbatch]
            exact congrArg some (if_pos rfl)
          · rw [head?_snoc (h.nonempty b (List.mem_of_getElem? hbatch))]
            exact hf.first
          · rw [rank_snoc hlt hfes]
            exact hf.starts
          · rw [tally_snoc hlt hfes hrun, if_pos (alike_symm hg hfe), rank_snoc hlt hfes, hf.tally,
              List.length_append, List.length_singleton]
            omega
          · rw [List.length_append, List.length_singleton]
            omega
        · have hne : ¬ g.alike e.value k'.value = true := fun hek => hij
            (h.open_distinct hlt hi hj hf.standing hc.standing (alike_trans hg hfe hek))
          have hother : id ≠ s.2 := fun heq => by
            have hst : standing p.batches s = some f := by
              unfold standing
              rw [← heq]
              exact hf.standing
            exact hij (h.open_distinct hlt hi hj hf.standing hst (alike_refl hg _))
          refine ⟨c, k', ?_, hc.first, hc.key, hrun', ?_, ?_, hc.room⟩
          · show (p.batches.modify id (· ++ [e]))[s.2]? = _
            rw [hmod, hc.batch]
            exact congrArg some (if_neg hother)
          · rw [rank_snoc hlt hk'es]
            exact hc.starts
          · rw [tally_snoc hlt hk'es hrun', if_neg hne, rank_snoc hlt hk'es]
            exact hc.tally
      distinct := fun i j s t f k hi hj hf hk => by
        rw [hkeep] at hf hk
        exact h.open_distinct hlt hi hj hf hk
      complete := fun x hx hrun' => by
        rcases List.mem_append.mp hx with hx | hx
        · obtain ⟨s, hs, k', hk', hkx⟩ := h.open_complete hlt hx hrun'
          exact ⟨s, hs, k', by rw [hkeep]; exact hk', hkx⟩
        · rw [List.mem_singleton.mp hx]
          exact ⟨(k, id), hopen, f, by rw [hkeep]; exact hf.standing, hfe⟩ }

end

/-! ## the walk -/

theorem isFull_iff {g : Grouping α κ σ} {bound : Option Nat}
    (hsize : g.maxSize = bound.bind sizeBound) {batches : List (Batch α)} {id : Nat} {b : Batch α}
    (hb : batches[id]? = some b) :
    g.isFull batches id = true ↔ bound.getD 0 ≠ 0 ∧ bound.getD 0 ≤ b.length := by
  unfold isFull
  rw [hsize, hb]
  cases bound with
  | none => simp
  | some n =>
    by_cases hn : n = 0
    · simp [sizeBound, hn]
    · simp [sizeBound, hn]

/-- Placing an entry behind all others keeps the batches exact. -/
theorem Exact.place {g : Grouping α κ σ} (hg : g.Lawful) {bound : Option Nat}
    (hsize : g.maxSize = bound.bind sizeBound) {es : List (Entry α)} {p : Progress α κ σ}
    {e : Entry α} (h : g.Exact bound es p) (hlt : ∀ x ∈ es, x.index < e.index) :
    g.Exact bound (es ++ [e]) (g.place p e) := by
  obtain ⟨hnone, hp⟩ | ⟨i, k, id, hi, hacc, hbefore, hrest⟩ := g.place_cases p e
  · have hunlike : ∀ s ∈ g.openSlots p e.value, ∀ f, standing p.batches s = some f →
        g.alike f.value e.value = false := by
      intro s hs f hf
      obtain ⟨b, f', hf', _⟩ := h.open_stands hlt hs
      cases Option.some.inj (hf'.standing.symm.trans hf)
      rw [← accepts_eq_alike hf hf'.key]
      exact hnone s hs
    have hno : ∀ x ∈ es, g.Ongoing (es ++ [e]) x → ¬ g.alike x.value e.value = true := by
      intro x hx hrun hxe
      obtain ⟨s, hs, f, hf, hfx⟩ := h.open_complete hlt hx hrun
      have := hunlike s hs f hf
      rw [alike_trans hg hfx hxe] at this
      exact absurd this (by simp)
    rw [hp]
    refine h.fresh hlt hg (n := (g.openSlots p e.value).length) ?_ ?_ ?_ ?_ ?_
    · exact fun x hx hm => hno x hx ((sameRun_snoc_new hlt hx).mp hm.1) hm.2.1
    · have hzero : g.rank (es ++ [e]) e = 0 := by
        rw [rank_snoc_new hlt, List.countP_eq_zero]
        intro x hx hcount
        obtain ⟨hrun, hxe⟩ := of_decide_eq_true hcount
        exact hno x hx hrun hxe
      rw [hzero]
      exact Nat.dvd_zero _
    · rw [List.getElem?_append_right (Nat.le_refl _), Nat.sub_self]
      rfl
    · intro j s hj hs
      rw [List.getElem?_append] at hs
      split at hs
      · exact ⟨hs, hunlike s (List.mem_of_getElem? hs)⟩
      · rw [List.getElem?_eq_none (by simp only [List.length_singleton]; omega)] at hs
        exact absurd hs (by simp)
    · exact fun s hs _ _ _ => List.mem_append_left _ hs
  · have hopen := List.mem_of_getElem? hi
    obtain ⟨b, f, hf, hfes, hrun⟩ := h.open_stands hlt hopen
    have hfe : g.alike f.value e.value = true := by
      rw [← accepts_eq_alike hf.standing hf.key]
      exact hacc
    have hbatch : p.batches[id]? = some b := hf.batch
    obtain ⟨hfull, hp⟩ | ⟨hfull, hp⟩ := hrest
    · obtain ⟨hpos, hle⟩ := (isFull_iff hsize hbatch).mp hfull
      have hlen : b.length = bound.getD 0 := by
        have := hf.room
        omega
      have hrank : g.rank (es ++ [e]) e = g.rank es f + bound.getD 0 := by
        rw [rank_snoc_new_of_alike hlt hg hfes hrun hfe, hf.tally, hlen]
      have hstarts : bound.getD 0 ∣ g.rank (es ++ [e]) e := by
        rw [hrank]
        exact Nat.dvd_add hf.starts (Nat.dvd_refl _)
      have hkey : k = g.key e.value := by
        have hk : k = g.key f.value := hf.key
        unfold alike at hfe
        rw [hk]
        exact of_decide_eq_true (Bool.and_eq_true_iff.mp hfe).1
      have hlength : i < (g.openSlots p e.value).length := by
        obtain ⟨hlt, _⟩ := List.getElem?_eq_some_iff.mp hi
        exact hlt
      rw [hp, hkey]
      refine h.fresh hlt hg (n := i) ?_ hstarts ?_ ?_ ?_
      · intro x hx hm
        obtain ⟨q, hq⟩ := hstarts
        have hlt' := rank_lt_rank_new hlt hg hx ((sameRun_snoc_new hlt hx).mp hm.1) hm.2.1
        have hblock := hm.2.2
        rw [block_eq, block_eq, rank_snoc hlt hx, hq,
          Nat.mul_div_cancel_left q (Nat.pos_of_ne_zero hpos)] at hblock
        rw [hq] at hlt'
        have := Nat.div_lt_of_lt_mul hlt'
        omega
      · rw [List.getElem?_set, if_pos rfl, if_pos hlength]
      · intro j s hj hs
        rw [List.getElem?_set, if_neg (Ne.symm hj)] at hs
        refine ⟨hs, fun f' hf' => ?_⟩
        by_contra hne
        rw [Bool.not_eq_false] at hne
        exact hj (h.open_distinct hlt hi hs hf.standing hf'
          (alike_trans hg hfe (alike_symm hg hne))).symm
      · intro s hs f' hf' hne
        obtain ⟨j, hj⟩ := List.mem_iff_getElem?.mp hs
        by_cases hij : i = j
        · rw [← hij, hi] at hj
          rw [← Option.some.inj hj, hf.standing] at hf'
          rw [← Option.some.inj hf', hfe] at hne
          exact absurd hne (by simp)
        · exact List.mem_of_getElem? (by rw [List.getElem?_set, if_neg hij]; exact hj)
    · have hroom : bound.getD 0 = 0 ∨ b.length < bound.getD 0 := by
        by_contra hno
        rw [(isFull_iff hsize hbatch).mpr (by omega)] at hfull
        exact absurd hfull (by simp)
      rw [hp]
      exact h.join hlt hg hi hf hfe hroom

theorem walk_exact {g : Grouping α κ σ} (hg : g.Lawful) {bound : Option Nat}
    (hsize : g.maxSize = bound.bind sizeBound) {es : List (Entry α)} (hes : InOrder es) :
    g.Exact bound es (es.foldl g.place .empty) := by
  induction es using List.reverseRecOn with
  | nil => exact g.exact_empty bound
  | append_singleton es e ih =>
    obtain ⟨hes', hlt⟩ := hes.snoc
    rw [List.foldl_append]
    exact (ih hes').place hg hsize hlt

/-- Entries of exact batches are together just if they are mates. -/
theorem Exact.together_iff {g : Grouping α κ σ} {bound : Option Nat} {es : List (Entry α)}
    {p : Progress α κ σ} (h : g.Exact bound es p) {x y : Entry α} (hx : x ∈ es) (hy : y ∈ es) :
    (∃ b ∈ p.batches, x ∈ b ∧ y ∈ b) ↔ g.Mates bound es x y := by
  have hfind : ∀ z ∈ es, ∃ (i : Nat) (b : Batch α), p.batches[i]? = some b ∧ z ∈ b := by
    intro z hz
    obtain ⟨b, hb, hzb⟩ := List.mem_flatten.mp (h.perm.mem_iff.mpr hz)
    obtain ⟨i, hi⟩ := List.mem_iff_getElem?.mp hb
    exact ⟨i, b, hi, hzb⟩
  constructor
  · rintro ⟨b, hb, hxb, hyb⟩
    obtain ⟨i, hi⟩ := List.mem_iff_getElem?.mp hb
    exact (h.mates i i b b hi hi x hxb y hyb).mpr rfl
  · intro hm
    obtain ⟨i, b, hi, hxb⟩ := hfind x hx
    obtain ⟨j, c, hj, hyc⟩ := hfind y hy
    have hij := (h.mates i j b c hi hj x hxb y hyc).mp hm
    rw [← hij, hi] at hj
    cases Option.some.inj hj
    exact ⟨b, List.mem_of_getElem? hi, hxb, hyc⟩

/-- **The batches of a partition without clusters.**  Two items are together just if they lie in
one run, have equal keys, are equal under the finer equality and have ranks in one block.  Every
item is in one batch, once, with its value and its position; batches are not empty, and they and
their entries are in the order of arrival. -/
theorem partition_exact (key : α → κ) (series : α → σ) (equality : Option (α → α → Bool))
    (bound : Option Nat)
    (lawful : ∀ same, equality = some same → Equivalence fun a b => same a b = true)
    (items : List α) :
    let g : Grouping α κ σ := { key, series, equality, maxSize := bound.bind sizeBound }
    let es := entries items
    let batches := g.partition items
    (∀ x ∈ es, ∀ y ∈ es, (∃ b ∈ batches, x ∈ b ∧ y ∈ b) ↔
      g.SameRun es x y ∧ key x.value = key y.value ∧
        (∀ same, equality = some same → same x.value y.value = true) ∧
        block bound (g.rank es x) = block bound (g.rank es y)) ∧
    batches.flatten.Perm es ∧
    (∀ b ∈ batches, b.indices.Pairwise (· < ·)) ∧
    (∀ b ∈ batches, b ≠ []) ∧
    batches.Pairwise (fun b c => ∀ i ∈ b.indices.head?, ∀ j ∈ c.indices.head?, i < j) := by
  intro g es batches
  have h : g.Exact bound es (es.foldl g.place .empty) :=
    walk_exact (g := g) lawful rfl (entries_inOrder items)
  have hbatches : batches = (es.foldl g.place .empty).batches := g.partition_eq_walk rfl items
  rw [hbatches]
  refine ⟨fun x hx y hy => ?_, h.perm, fun b hb => ?_, h.nonempty, ?_⟩
  · rw [h.together_iff hx hy]
    unfold Mates
    rw [alike_iff, and_assoc]
  · exact List.pairwise_map.mpr (h.inOrder b hb)
  · refine h.firsts.imp fun {b c} hbc i hi j hj => ?_
    unfold Batch.indices at hi hj
    rw [List.head?_map] at hi hj
    obtain ⟨x, hx, rfl⟩ := Option.map_eq_some_iff.mp hi
    obtain ⟨y, hy, rfl⟩ := Option.map_eq_some_iff.mp hj
    exact hbc x hx y hy

/-- a third item does not fit with two others that are equal to it -/
theorem partition_exact_third :
    (Equivalence fun a b : Nat => (a == b) = true) ∧
    ¬ ∃ b ∈ Grouping.partition
        ({ key := fun _ => (), series := fun _ => (), equality := some (· == ·),
           maxSize := (some 2).bind sizeBound } : Grouping Nat Unit Unit) [7, 8, 7, 7, 8],
      (⟨7, 0⟩ : Entry Nat) ∈ b ∧ ⟨7, 3⟩ ∈ b := by
  have hequiv : Equivalence fun a b : Nat => (a == b) = true :=
    ⟨fun a => beq_self_eq_true a, fun h => by rw [beq_iff_eq] at h ⊢; exact h.symm,
      fun h h' => by rw [beq_iff_eq] at h h' ⊢; exact h.trans h'⟩
  refine ⟨hequiv, fun hb => ?_⟩
  have h := partition_exact (fun _ : Nat => ()) (fun _ => ()) (some (· == ·)) (some 2)
    (fun same hs => Option.some.inj hs ▸ hequiv) [7, 8, 7, 7, 8]
  have hblock := ((h.1 ⟨7, 0⟩ (by decide) ⟨7, 3⟩ (by decide)).mp hb).2.2.2
  exact absurd hblock (by decide)

end Grouping

end Coalesce
