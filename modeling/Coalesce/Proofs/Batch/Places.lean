import Coalesce.Proofs.Batch.Agree
import Coalesce.Proofs.Batch.Sizes
import Mathlib.Data.List.Nodup
import Mathlib.Logic.Function.Basic

/-!
# Batches under any relation

* `heldAt`               what a batch holds when the entry at some position comes;
* `Grouping.Begun`, `Grouping.Latest`
                         the batches of the key and the run of an entry, and the latest one of each
                         slot among them;
* `Grouping.Takes`, `Grouping.FirstTakes`
                         those of them whose first entry takes the entry, and the one in the first
                         slot;
* `Grouping.Settles`     why an entry opens a slot, has one handed over, or joins a batch;
* `Grouping.Tracks`      the open places of a walk are the latest batches of their slots;
* `Grouping.partition_by_relation`
                         every entry of a partition settles, whatever the relation may be.

A slot has the number of the batch that opened it, so slots are in the order in which they were
opened.  A batch that takes over a slot may have a first entry that is not related to anything; so
which slots take an entry is asked again at every entry, and nothing is known but their order.
-/

set_option linter.unusedSectionVars false

namespace Coalesce

variable {α κ σ : Type}

/-! ## batches at some time -/

def heldAt (batches : List (Batch α)) (i k : Nat) : Batch α :=
  ((batches[k]?).getD []).filter fun x => x.index < i

theorem heldAt_snoc (batches : List (Batch α)) {e : Entry α} {i : Nat} (hle : i ≤ e.index) :
    heldAt (batches ++ [[e]]) i = heldAt batches i := by
  have hnot : ¬ e.index < i := Nat.not_lt_of_le hle
  funext k
  unfold heldAt
  rcases Nat.lt_trichotomy k batches.length with hk | rfl | hk
  · rw [List.getElem?_append_left hk]
  · simp [hnot]
  · have hlen : (batches ++ [[e]]).length ≤ k := by
      rw [List.length_append, List.length_singleton]
      exact hk
    rw [List.getElem?_eq_none hlen, List.getElem?_eq_none (Nat.le_of_lt hk)]

theorem heldAt_modify (batches : List (Batch α)) (id : Nat) {e : Entry α} {i : Nat}
    (hle : i ≤ e.index) : heldAt (batches.modify id (· ++ [e])) i = heldAt batches i := by
  have hnot : ¬ e.index < i := Nat.not_lt_of_le hle
  funext k
  unfold heldAt
  rw [List.getElem?_modify]
  cases batches[k]? with
  | none => rfl
  | some b =>
    show (if id = k then b ++ [e] else b).filter _ = b.filter _
    split
    · simp [hnot]
    · rfl

/-- behind all entries, batches hold all they have -/
theorem heldAt_all {batches : List (Batch α)} {i : Nat}
    (h : ∀ b ∈ batches, ∀ x ∈ b, x.index < i) (k : Nat) :
    heldAt batches i k = (batches[k]?).getD [] := by
  unfold heldAt
  refine List.filter_eq_self.mpr fun x hx => ?_
  cases hk : batches[k]? with
  | none =>
    rw [hk] at hx
    exact absurd hx List.not_mem_nil
  | some b =>
    rw [hk] at hx
    exact decide_eq_true (h b (List.mem_of_getElem? hk) x hx)

theorem lt_of_heldAt {batches : List (Batch α)} {i k : Nat} (h : heldAt batches i k ≠ []) :
    k < batches.length := by
  by_contra hk
  refine h ?_
  unfold heldAt
  rw [List.getElem?_eq_none (Nat.le_of_not_lt hk)]
  rfl

theorem mem_heldAt {batches : List (Batch α)} {i k : Nat} {x : Entry α} :
    x ∈ heldAt batches i k ↔ ∃ b, batches[k]? = some b ∧ x ∈ b ∧ x.index < i := by
  unfold heldAt
  rw [List.mem_filter, decide_eq_true_iff]
  cases batches[k]? with
  | none => simp
  | some b => simp

namespace Grouping

variable [DecidableEq κ] [DecidableEq σ]

/-! ## slots -/

section
variable (g : Grouping α κ σ) (es : List (Entry α)) (same : α → α → Bool) (slot : Nat → Nat)
  (held : Nat → Batch α) (e : Entry α)

/-- The batch was begun for the key of the entry, in its run. -/
def Begun (k : Nat) : Prop :=
  ∃ f ∈ (held k).head?, g.key f.value = g.key e.value ∧ g.SameRun es f e

/-- It is the latest one of its slot. -/
def Latest (k : Nat) : Prop :=
  g.Begun es held e k ∧ ∀ j, g.Begun es held e j → slot j = slot k → j ≤ k

/-- And its first entry is related to the entry. -/
def Takes (k : Nat) : Prop :=
  g.Latest es slot held e k ∧ ∃ f ∈ (held k).head?, same f.value e.value = true

/-- And no slot that was opened before takes the entry. -/
def FirstTakes (k : Nat) : Prop :=
  g.Takes es same slot held e k ∧ ∀ j, g.Takes es same slot held e j → slot k ≤ slot j

/-- Why an entry is in the batch with some number, when batches have a size. -/
inductive Settles (size k : Nat) : Prop where
  /-- it is the first one, in a slot of its own, as no slot takes it -/
  | opens (first : held k = []) (nobody : ∀ j, ¬ g.Takes es same slot held e j)
      (own : slot k = k) : Settles size k
  /-- it is the first one, in the first slot that takes it, as the batch there is full -/
  | replaces (first : held k = []) (j : Nat) (taker : g.FirstTakes es same slot held e j)
      (full : (held j).length = size) (handed : slot k = slot j) : Settles size k
  /-- the batch is in the first slot that takes it, and has room -/
  | joins (taker : g.FirstTakes es same slot held e k) (room : (held k).length < size) :
      Settles size k

end

section
variable {g : Grouping α κ σ} {es es' : List (Entry α)} {same : α → α → Bool}
  {slot slot' : Nat → Nat} {held : Nat → Batch α} {e : Entry α} {k : Nat}

theorem Begun.nonempty (h : g.Begun es held e k) : held k ≠ [] := by
  obtain ⟨f, hf, _⟩ := h
  exact List.ne_nil_of_mem (List.mem_of_mem_head? hf)

variable (hrun : ∀ k, ∀ f ∈ (held k).head?, g.SameRun es f e ↔ g.SameRun es' f e)
  (hslot : ∀ k, held k ≠ [] → slot' k = slot k)
include hrun

theorem begun_congr : g.Begun es held e k ↔ g.Begun es' held e k :=
  exists_congr fun f => and_congr_right fun hf => and_congr_right fun _ => hrun k f hf

include hslot

theorem latest_congr : g.Latest es slot held e k ↔ g.Latest es' slot' held e k := by
  unfold Latest
  simp only [begun_congr hrun]
  refine and_congr_right fun hk => forall_congr' fun j => imp_congr_right fun hj => ?_
  rw [hslot j hj.nonempty, hslot k hk.nonempty]

theorem takes_congr : g.Takes es same slot held e k ↔ g.Takes es' same slot' held e k :=
  and_congr_left' (latest_congr hrun hslot)

theorem firstTakes_congr :
    g.FirstTakes es same slot held e k ↔ g.FirstTakes es' same slot' held e k := by
  unfold FirstTakes
  simp only [takes_congr hrun hslot]
  refine and_congr_right fun hk => forall_congr' fun j => imp_congr_right fun hj => ?_
  rw [hslot j hj.1.1.nonempty, hslot k hk.1.1.nonempty]

/-- It settles all the same when slots of other batches are renumbered. -/
theorem Settles.congr {size : Nat} (h : g.Settles es same slot held e size k)
    (hk : slot' k = slot k) : g.Settles es' same slot' held e size k := by
  cases h with
  | opens first nobody own =>
    refine .opens first (fun j hj => nobody j ((takes_congr hrun hslot).mpr hj)) ?_
    rw [hk, own]
  | replaces first j taker full handed =>
    refine .replaces first j ((firstTakes_congr hrun hslot).mp taker) full ?_
    rw [hk, handed, hslot j taker.1.1.1.nonempty]
  | joins taker room => exact .joins ((firstTakes_congr hrun hslot).mp taker) room

end

/-! ## the walk -/

/-- The open places of a walk are the latest batches of the slots of the last run. -/
structure Tracks (g : Grouping α κ σ) (slot : Nat → Nat) (es : List (Entry α))
    (p : Progress α κ σ) : Prop extends Tidy es p where
  series : ∀ x ∈ es, g.Ongoing es x → p.series = some (g.series x.value)
  keyed : g.Keyed p
  ongoing : ∀ s ∈ p.slots, ∀ f, standing p.batches s = some f → g.Ongoing es f
  complete : ∀ k f, (p.batches[k]?).bind List.head? = some f → g.Ongoing es f →
    ∃ s ∈ p.slots, slot s.2 = slot k ∧ s.1 = g.key f.value
  latest : ∀ s ∈ p.slots, ∀ k < p.batches.length, slot k = slot s.2 → k ≤ s.2
  ascending : (p.slots.map fun s => slot s.2).Pairwise (· < ·)
  numbered : ∀ k < p.batches.length, slot k ≤ k

theorem tracks_empty (g : Grouping α κ σ) (slot : Nat → Nat) : g.Tracks slot [] .empty where
  toTidy := tidy_empty
  series _ h := absurd h List.not_mem_nil
  keyed _ h := absurd h List.not_mem_nil
  ongoing _ h := absurd h List.not_mem_nil
  complete _ _ h := absurd h (by simp [Progress.empty])
  latest _ h := absurd h List.not_mem_nil
  ascending := List.Pairwise.nil
  numbered _ h := absurd h (Nat.not_lt_zero _)

section
variable {g : Grouping α κ σ} {slot : Nat → Nat} {es : List (Entry α)} {p : Progress α κ σ}
  {e : Entry α} (h : g.Tracks slot es p)
include h

theorem Tracks.first_mem {k : Nat} {f : Entry α}
    (hf : (p.batches[k]?).bind List.head? = some f) : k < p.batches.length ∧ f ∈ es := by
  obtain ⟨b, hb, hbf⟩ := Option.bind_eq_some_iff.mp hf
  obtain ⟨hk, _⟩ := List.getElem?_eq_some_iff.mp hb
  exact ⟨hk, h.mem (List.mem_of_getElem? hb) (List.mem_of_mem_head? hbf)⟩

theorem Tracks.open_lt : ∀ s ∈ g.openSlots p e.value, s.2 < p.batches.length :=
  fun s hs => h.slots s (mem_of_mem_openSlots hs)

theorem Tracks.open_ascending :
    ((g.openSlots p e.value).map fun s => slot s.2).Pairwise (· < ·) := by
  unfold openSlots
  split
  · exact h.ascending
  · exact List.Pairwise.nil

theorem Tracks.open_inj {i j : Nat} {s t : κ × Nat} (hi : (g.openSlots p e.value)[i]? = some s)
    (hj : (g.openSlots p e.value)[j]? = some t) (hslot : slot s.2 = slot t.2) : i = j := by
  have hnodup : ((g.openSlots p e.value).map fun s => slot s.2).Nodup :=
    (h.open_ascending).imp Nat.ne_of_lt
  have hlen : i < ((g.openSlots p e.value).map fun s => slot s.2).length := by
    rw [List.length_map]
    exact (List.getElem?_eq_some_iff.mp hi).1
  refine (List.getElem?_inj hlen hnodup).mp ?_
  rw [List.getElem?_map, List.getElem?_map, hi, hj]
  exact congrArg some hslot

variable (hlt : ∀ x ∈ es, x.index < e.index)
include hlt

theorem Tracks.head?_heldAt (k : Nat) :
    (heldAt p.batches e.index k).head? = (p.batches[k]?).bind List.head? := by
  rw [heldAt_all fun b hb x hx => hlt x (h.mem hb hx)]
  cases p.batches[k]? <;> rfl

theorem Tracks.open_begun {s : κ × Nat} (hs : s ∈ g.openSlots p e.value) :
    ∃ f, standing p.batches s = some f ∧ s.1 = g.key f.value ∧ g.Ongoing (es ++ [e]) f := by
  obtain ⟨f, hf, hkey⟩ := h.keyed s (mem_of_mem_openSlots hs)
  have hmem := (h.first_mem hf).2
  have hongoing := h.ongoing s (mem_of_mem_openSlots hs) f hf
  have heq : g.series e.value = g.series f.value :=
    Option.some.inj ((series_of_mem_openSlots hs).symm.trans (h.series f hmem hongoing))
  exact ⟨f, hf, hkey, (ongoing_snoc hlt hmem).mpr ⟨hongoing, heq⟩⟩

theorem Tracks.open_complete {k : Nat} {f : Entry α}
    (hf : (p.batches[k]?).bind List.head? = some f) (hrun : g.Ongoing (es ++ [e]) f) :
    ∃ s ∈ g.openSlots p e.value, slot s.2 = slot k ∧ s.1 = g.key f.value := by
  have hmem := (h.first_mem hf).2
  obtain ⟨hongoing, heq⟩ := (ongoing_snoc hlt hmem).mp hrun
  have hseries := h.series f hmem hongoing
  rw [openSlots_of_series (by rw [hseries, heq])]
  exact h.complete k f hf hongoing

theorem Tracks.begun_iff {k : Nat} :
    g.Begun (es ++ [e]) (heldAt p.batches e.index) e k ↔
      ∃ f, (p.batches[k]?).bind List.head? = some f ∧ g.key f.value = g.key e.value ∧
        g.Ongoing (es ++ [e]) f := by
  unfold Begun
  rw [h.head?_heldAt hlt]
  refine exists_congr fun f => and_congr_right fun hf => and_congr_right fun _ => ?_
  exact sameRun_snoc_new hlt (h.first_mem hf).2

/-- The batches that take an entry are those of the open places that accept it. -/
theorem Tracks.takes_iff {same : α → α → Bool} (heq : g.equality = some same) {k : Nat} :
    g.Takes (es ++ [e]) same slot (heldAt p.batches e.index) e k ↔
      ∃ s ∈ g.openSlots p e.value, s.2 = k ∧ g.accepts p.batches e.value s = true := by
  have haccepts : ∀ s f, standing p.batches s = some f → s.1 = g.key f.value →
      (g.accepts p.batches e.value s = true ↔
        g.key f.value = g.key e.value ∧ same f.value e.value = true) := by
    intro s f hf hkey
    rw [accepts_eq_alike hf hkey, alike_iff, heq]
    simp
  unfold Takes
  rw [h.head?_heldAt hlt]
  constructor
  · rintro ⟨⟨hbegun, hlatest⟩, f, hf, hsame⟩
    obtain ⟨f', hf', hkey, hrun⟩ := (h.begun_iff hlt).mp hbegun
    cases hf.symm.trans hf'
    obtain ⟨s, hs, hslot, hskey⟩ := h.open_complete hlt hf hrun
    obtain ⟨d, hd, hdkey, hdrun⟩ := h.open_begun hlt hs
    -- the open place of the slot and the batch are each not behind the other
    have hle : s.2 ≤ k := by
      refine hlatest s.2 ((h.begun_iff hlt).mpr ⟨d, hd, ?_, hdrun⟩) hslot
      rw [← hdkey, hskey, hkey]
    have hge : k ≤ s.2 :=
      h.latest s (mem_of_mem_openSlots hs) k (h.first_mem hf).1 hslot.symm
    obtain rfl := Nat.le_antisymm hle hge
    exact ⟨s, hs, rfl, (haccepts s f hf hskey).mpr ⟨hkey, hsame⟩⟩
  · rintro ⟨s, hs, rfl, hacc⟩
    obtain ⟨f, hf, hskey, hrun⟩ := h.open_begun hlt hs
    obtain ⟨hkey, hsame⟩ := (haccepts s f hf hskey).mp hacc
    refine ⟨⟨(h.begun_iff hlt).mpr ⟨f, hf, hkey, hrun⟩, fun j hj hslot => ?_⟩, f, hf, hsame⟩
    obtain ⟨d, hd, _⟩ := (h.begun_iff hlt).mp hj
    exact h.latest s (mem_of_mem_openSlots hs) j (h.first_mem hd).1 hslot

theorem Tracks.series_snoc : ∀ x ∈ es ++ [e], g.Ongoing (es ++ [e]) x →
    some (g.series e.value) = some (g.series x.value) := by
  intro x hx hrun
  rcases List.mem_append.mp hx with hx | hx
  · rw [((ongoing_snoc hlt hx).mp hrun).2]
  · rw [List.mem_singleton.mp hx]

/-- An entry joins a batch. -/
theorem Tracks.joined {id : Nat} (hid : id < p.batches.length)
    (hplace : g.place p e = ⟨p.batches.modify id (· ++ [e]), g.openSlots p e.value,
      some (g.series e.value)⟩) :
    g.Tracks slot (es ++ [e]) (g.place p e) := by
  have hkeyed := h.keyed.place e
  rw [hplace] at hkeyed ⊢
  have hopen : ∀ s ∈ g.openSlots p e.value, s ∈ p.slots := fun s => mem_of_mem_openSlots
  have hhead : ∀ k : Nat, ((p.batches.modify id (· ++ [e]))[k]?).bind List.head?
      = (p.batches[k]?).bind List.head? := by
    intro k
    rw [List.getElem?_modify]
    cases hk : p.batches[k]? with
    | none => rfl
    | some b =>
      show (if id = k then b ++ [e] else b).head? = b.head?
      split
      · exact head?_snoc (h.nonempty b (List.mem_of_getElem? hk)) e
      · rfl
  exact {
    toTidy := h.toTidy.joined hlt hid hopen
    series := h.series_snoc hlt
    keyed := hkeyed
    ongoing := by
      intro s hs f hf
      obtain ⟨d, hd, _, hrun⟩ := h.open_begun hlt hs
      unfold standing at hf
      rw [hhead s.2] at hf
      cases hf.symm.trans hd
      exact hrun
    complete := by
      intro k f hf hrun
      rw [hhead k] at hf
      exact h.open_complete hlt hf hrun
    latest := by
      intro s hs k hk
      rw [List.length_modify] at hk
      exact h.latest s (hopen s hs) k hk
    ascending := h.open_ascending
    numbered := by
      intro k hk
      rw [List.length_modify] at hk
      exact h.numbered k hk }

/-- An entry opens a batch, in a slot of its own or in one that is handed over. -/
theorem Tracks.opened {slots : List (κ × Nat)} {v : Nat}
    (hplace : g.place p e = ⟨p.batches ++ [[e]], slots, some (g.series e.value)⟩)
    (hv : v ≤ p.batches.length) (hnew : (g.key e.value, p.batches.length) ∈ slots)
    (hold : ∀ s ∈ slots, s = (g.key e.value, p.batches.length) ∨
      s ∈ g.openSlots p e.value ∧ slot s.2 ≠ v)
    (hkept : ∀ s ∈ g.openSlots p e.value, s ∈ slots ∨ slot s.2 = v ∧ s.1 = g.key e.value)
    (hascending : (slots.map fun s => Function.update slot p.batches.length v s.2).Pairwise
      (· < ·)) :
    g.Tracks (Function.update slot p.batches.length v) (es ++ [e]) (g.place p e) := by
  have hkeyed := h.keyed.place e
  rw [hplace] at hkeyed ⊢
  have hupdate : ∀ k < p.batches.length, Function.update slot p.batches.length v k = slot k :=
    fun k hk => Function.update_of_ne (Nat.ne_of_lt hk) v slot
  have hlast : Function.update slot p.batches.length v p.batches.length = v :=
    Function.update_self _ v slot
  have hcases : ∀ k < (p.batches ++ [[e]]).length, k < p.batches.length ∨ k = p.batches.length := by
    intro k hk
    rw [List.length_append, List.length_singleton] at hk
    omega
  exact {
    toTidy := h.toTidy.opened hlt fun s hs => by
      rcases hold s hs with rfl | ⟨hs, _⟩
      · exact Or.inr rfl
      · exact Or.inl (mem_of_mem_openSlots hs)
    series := h.series_snoc hlt
    keyed := hkeyed
    ongoing := by
      intro s hs f hf
      rcases hold s hs with rfl | ⟨hs, _⟩
      · rw [standing_snoc_new] at hf
        cases hf
        exact ongoing_snoc_new hlt
      · obtain ⟨d, hd, _, hrun⟩ := h.open_begun hlt hs
        rw [standing_snoc hd] at hf
        cases hf
        exact hrun
    complete := by
      intro k f hf hrun
      obtain ⟨b, hb, hbf⟩ := Option.bind_eq_some_iff.mp hf
      rcases hcases k (List.getElem?_eq_some_iff.mp hb).1 with hk | rfl
      · rw [List.getElem?_append_left hk] at hf
        obtain ⟨s, hs, hslot, hkey⟩ := h.open_complete hlt hf hrun
        rcases hkept s hs with hs' | ⟨hsv, hskey⟩
        · refine ⟨s, hs', ?_, hkey⟩
          rw [hupdate _ (h.open_lt s hs), hupdate k hk, hslot]
        · refine ⟨_, hnew, ?_, hskey.symm.trans hkey⟩
          show Function.update slot p.batches.length v p.batches.length = _
          rw [hlast, hupdate k hk, ← hslot, hsv]
      · have hstanding := standing_snoc_new p.batches (g.key e.value) e
        cases hf.symm.trans hstanding
        exact ⟨_, hnew, rfl, rfl⟩
    latest := by
      intro s hs k hk hslot
      rcases hold s hs with rfl | ⟨hs, hne⟩
      · rcases hcases k hk with hk | rfl
        · exact Nat.le_of_lt hk
        · exact Nat.le_refl _
      · rw [hupdate _ (h.open_lt s hs)] at hslot
        rcases hcases k hk with hk | rfl
        · rw [hupdate k hk] at hslot
          exact h.latest s (mem_of_mem_openSlots hs) k hk hslot
        · rw [hlast] at hslot
          exact absurd hslot.symm hne
    ascending := hascending
    numbered := by
      intro k hk
      rcases hcases k hk with hk | rfl
      · rw [hupdate k hk]
        exact h.numbered k hk
      · rw [hlast]
        exact hv }

/-- The slot is a new one. -/
theorem Tracks.opens (hplace : g.place p e = ⟨p.batches ++ [[e]],
      g.openSlots p e.value ++ [(g.key e.value, p.batches.length)], some (g.series e.value)⟩) :
    g.Tracks (Function.update slot p.batches.length p.batches.length) (es ++ [e])
      (g.place p e) := by
  have hbelow : ∀ s ∈ g.openSlots p e.value, slot s.2 < p.batches.length := fun s hs =>
    Nat.lt_of_le_of_lt (h.numbered s.2 (h.open_lt s hs)) (h.open_lt s hs)
  refine h.opened hlt hplace (Nat.le_refl _) (List.mem_append_right _ (List.mem_singleton_self _))
    (fun s hs => ?_) (fun s hs => Or.inl (List.mem_append_left _ hs)) ?_
  · rcases List.mem_append.mp hs with hs | hs
    · exact Or.inr ⟨hs, Nat.ne_of_lt (hbelow s hs)⟩
    · exact Or.inl (List.mem_singleton.mp hs)
  · rw [List.map_append, List.map_congr_left fun s hs =>
      Function.update_of_ne (Nat.ne_of_lt (h.open_lt s hs)) p.batches.length slot]
    refine List.pairwise_append.mpr ⟨h.open_ascending, List.pairwise_singleton _ _, ?_⟩
    intro x hx y hy
    obtain ⟨s, hs, rfl⟩ := List.mem_map.mp hx
    obtain rfl := List.mem_singleton.mp hy
    show slot s.2 < Function.update slot p.batches.length p.batches.length p.batches.length
    rw [Function.update_self]
    exact hbelow s hs

/-- The slot is that of a batch that was open. -/
theorem Tracks.replaces {i id : Nat} {k : κ} (hi : (g.openSlots p e.value)[i]? = some (k, id))
    (hkey : k = g.key e.value)
    (hplace : g.place p e = ⟨p.batches ++ [[e]],
      (g.openSlots p e.value).set i (k, p.batches.length), some (g.series e.value)⟩) :
    g.Tracks (Function.update slot p.batches.length (slot id)) (es ++ [e]) (g.place p e) := by
  have hid : id < p.batches.length := h.open_lt _ (List.mem_of_getElem? hi)
  have hil : i < (g.openSlots p e.value).length := (List.getElem?_eq_some_iff.mp hi).1
  have hv : slot id ≤ p.batches.length := Nat.le_of_lt (Nat.lt_of_le_of_lt (h.numbered id hid) hid)
  -- the slots of the places are the ones before
  have hslots : ((g.openSlots p e.value).set i (k, p.batches.length)).map
        (fun s => Function.update slot p.batches.length (slot id) s.2)
      = (g.openSlots p e.value).map fun s => slot s.2 := by
    refine List.ext_getElem? fun j => ?_
    rw [List.getElem?_map, List.getElem?_map]
    by_cases hij : i = j
    · rw [← hij, List.getElem?_set_self hil, hi]
      exact congrArg some (Function.update_self _ _ _)
    · rw [List.getElem?_set_ne hij]
      cases hj : (g.openSlots p e.value)[j]? with
      | none => rfl
      | some s =>
        have hs := h.open_lt s (List.mem_of_getElem? hj)
        exact congrArg some (Function.update_of_ne (Nat.ne_of_lt hs) _ _)
  refine h.opened hlt hplace hv (hkey ▸ List.mem_set hil _) (fun s hs => ?_) (fun s hs => ?_) ?_
  · obtain ⟨j, hj⟩ := List.mem_iff_getElem?.mp hs
    by_cases hij : i = j
    · rw [← hij, List.getElem?_set_self hil] at hj
      rw [← hkey]
      exact Or.inl (Option.some.inj hj).symm
    · rw [List.getElem?_set_ne hij] at hj
      exact Or.inr ⟨List.mem_of_getElem? hj, fun hslot => hij (h.open_inj hi hj hslot.symm)⟩
  · obtain ⟨j, hj⟩ := List.mem_iff_getElem?.mp hs
    by_cases hij : i = j
    · rw [← hij, hi] at hj
      cases hj
      exact Or.inr ⟨rfl, hkey⟩
    · refine Or.inl (List.mem_of_getElem? (i := j) ?_)
      rw [List.getElem?_set_ne hij]
      exact hj
  · rw [hslots]
    exact h.open_ascending

/-- The first open place that accepts an entry is the first slot that takes it. -/
theorem Tracks.firstTakes {same : α → α → Bool} (heq : g.equality = some same) {i : Nat}
    {s : κ × Nat} (hi : (g.openSlots p e.value)[i]? = some s)
    (hacc : g.accepts p.batches e.value s = true)
    (hbefore : ∀ j t, j < i → (g.openSlots p e.value)[j]? = some t →
      g.accepts p.batches e.value t = false) :
    g.FirstTakes (es ++ [e]) same slot (heldAt p.batches e.index) e s.2 := by
  refine ⟨(h.takes_iff hlt heq).mpr ⟨s, List.mem_of_getElem? hi, rfl, hacc⟩, fun j hj => ?_⟩
  obtain ⟨t, ht, rfl, htacc⟩ := (h.takes_iff hlt heq).mp hj
  obtain ⟨m, hm⟩ := List.mem_iff_getElem?.mp ht
  rcases Nat.lt_trichotomy m i with hmi | rfl | him
  · rw [hbefore m t hmi hm] at htacc
    cases htacc
  · cases hi.symm.trans hm
    exact Nat.le_refl _
  · obtain ⟨hil, rfl⟩ := List.getElem?_eq_some_iff.mp hi
    obtain ⟨hml, rfl⟩ := List.getElem?_eq_some_iff.mp hm
    have hpairs : (g.openSlots p e.value).Pairwise fun s t => slot s.2 < slot t.2 :=
      List.pairwise_map.mp h.open_ascending
    exact Nat.le_of_lt (List.pairwise_iff_getElem.mp hpairs i m hil hml him)

end

/-! ## entries -/

def Settled (g : Grouping α κ σ) (size : Nat) (same : α → α → Bool) (slot : Nat → Nat)
    (es : List (Entry α)) (batches : List (Batch α)) : Prop :=
  ∀ k b, batches[k]? = some b → ∀ x ∈ b,
    g.Settles es same slot (heldAt batches x.index) x size k

section
variable {g : Grouping α κ σ} {size : Nat} {same : α → α → Bool} {slot slot' : Nat → Nat}
  {es : List (Entry α)} {p : Progress α κ σ} {e : Entry α} (h : Tidy es p)
  (hlt : ∀ x ∈ es, x.index < e.index) (settled : g.Settled size same slot es p.batches)
  (hslot : ∀ k < p.batches.length, slot' k = slot k)
include h hlt settled hslot

/-- Entries that have come stay settled. -/
theorem Settled.later {k : Nat} {b : Batch α} (hb : p.batches[k]? = some b) {x : Entry α}
    (hx : x ∈ b) : g.Settles (es ++ [e]) same slot' (heldAt p.batches x.index) x size k := by
  refine (settled k b hb x hx).congr (fun j f hf => ?_) (fun j hj => hslot j (lt_of_heldAt hj))
    (hslot k (List.getElem?_eq_some_iff.mp hb).1)
  obtain ⟨c, hc, hfc, _⟩ := mem_heldAt.mp (List.mem_of_mem_head? hf)
  have hfes := h.mem (List.mem_of_getElem? hc) hfc
  exact (sameRun_snoc hlt hfes (h.mem (List.mem_of_getElem? hb) hx)).symm

theorem Settled.opened (new : g.Settles (es ++ [e]) same slot' (heldAt p.batches e.index) e size
    p.batches.length) : g.Settled size same slot' (es ++ [e]) (p.batches ++ [[e]]) := by
  intro k b hb x hx
  rcases Nat.lt_or_ge k p.batches.length with hk | hk
  · rw [List.getElem?_append_left hk] at hb
    rw [heldAt_snoc _ (Nat.le_of_lt (hlt x (h.mem (List.mem_of_getElem? hb) hx)))]
    exact settled.later h hlt hslot hb hx
  · rw [List.getElem?_append_right hk] at hb
    obtain rfl := List.mem_singleton.mp (List.mem_of_getElem? hb)
    obtain rfl := List.mem_singleton.mp hx
    obtain rfl : k = p.batches.length := by
      have hlen := (List.getElem?_eq_some_iff.mp hb).1
      rw [List.length_singleton] at hlen
      omega
    rw [heldAt_snoc _ (Nat.le_refl _)]
    exact new

theorem Settled.joined {id : Nat} (new : g.Settles (es ++ [e]) same slot'
    (heldAt p.batches e.index) e size id) :
    g.Settled size same slot' (es ++ [e]) (p.batches.modify id (· ++ [e])) := by
  intro k b hb x hx
  rw [List.getElem?_modify] at hb
  obtain ⟨c, hc, rfl⟩ := Option.map_eq_some_iff.mp hb
  have old : x ∈ c → g.Settles (es ++ [e]) same slot'
      (heldAt (p.batches.modify id (· ++ [e])) x.index) x size k := by
    intro hx
    rw [heldAt_modify _ _ (Nat.le_of_lt (hlt x (h.mem (List.mem_of_getElem? hc) hx)))]
    exact settled.later h hlt hslot hc hx
  split at hx
  · rename_i hid
    rcases List.mem_append.mp hx with hx | hx
    · exact old hx
    · obtain rfl := List.mem_singleton.mp hx
      rw [heldAt_modify _ _ (Nat.le_refl _), ← hid]
      exact new
  · exact old hx

end

/-- An entry behind all others settles, and the others stay settled. -/
theorem Tracks.place {g : Grouping α κ σ} {size : Nat} {same : α → α → Bool}
    (heq : g.equality = some same) (hsize : g.maxSize = sizeBound size) (pos : 0 < size)
    {slot : Nat → Nat} {es : List (Entry α)} {p : Progress α κ σ} {e : Entry α}
    (h : g.Tracks slot es p) (hlt : ∀ x ∈ es, x.index < e.index) (sized : Sized size p)
    (settled : g.Settled size same slot es p.batches) :
    ∃ slot', g.Tracks slot' (es ++ [e]) (g.place p e) ∧
      g.Settled size same slot' (es ++ [e]) (g.place p e).batches := by
  have hheld : ∀ k, heldAt p.batches e.index k = (p.batches[k]?).getD [] :=
    heldAt_all fun b hb x hx => hlt x (h.mem hb hx)
  have hlast : heldAt p.batches e.index p.batches.length = [] := by
    rw [hheld, List.getElem?_eq_none (Nat.le_refl _)]
    rfl
  have hupdate : ∀ v, ∀ k < p.batches.length, Function.update slot p.batches.length v k = slot k :=
    fun v k hk => Function.update_of_ne (Nat.ne_of_lt hk) v slot
  have hsame : ∀ v k, heldAt p.batches e.index k ≠ [] →
      Function.update slot p.batches.length v k = slot k :=
    fun v k hk => hupdate v k (lt_of_heldAt hk)
  obtain ⟨hnone, hp⟩ | ⟨i, k, id, hi, hacc, hbefore, hroom⟩ := g.place_cases p e
  · refine ⟨_, h.opens hlt hp, ?_⟩
    rw [hp]
    refine settled.opened h.toTidy hlt (hupdate _) (.opens hlast (fun j hj => ?_)
      (Function.update_self _ _ _))
    have hj := (takes_congr (fun _ _ _ => Iff.rfl) (hsame _)).mpr hj
    obtain ⟨s, hs, _, hacc⟩ := (h.takes_iff hlt heq).mp hj
    rw [hnone s hs] at hacc
    cases hacc
  · have htaker := h.firstTakes hlt heq hi hacc hbefore
    have hid : id < p.batches.length := h.open_lt _ (List.mem_of_getElem? hi)
    have hget : p.batches[id]? = some p.batches[id] := List.getElem?_eq_getElem hid
    have hheldid : heldAt p.batches e.index id = p.batches[id] := by
      rw [hheld, hget]
      rfl
    have hbound : g.maxSize = (Option.some size).bind sizeBound := hsize
    obtain ⟨hfull, hp⟩ | ⟨hfree, hp⟩ := hroom
    · have hlen : (heldAt p.batches e.index id).length = size := by
        rw [hheldid]
        exact Nat.le_antisymm (sized _ (List.mem_of_getElem? hget))
          ((isFull_iff hbound hget).mp hfull).2
      refine ⟨_, h.replaces hlt hi (key_of_accepts hacc) hp, ?_⟩
      rw [hp]
      refine settled.opened h.toTidy hlt (hupdate _) (.replaces hlast id ?_ hlen ?_)
      · exact (firstTakes_congr (fun _ _ _ => Iff.rfl) (hsame _)).mp htaker
      · rw [Function.update_self, hupdate _ id hid]
    · refine ⟨slot, h.joined hlt hid hp, ?_⟩
      rw [hp]
      refine settled.joined h.toTidy hlt (fun _ _ => rfl) (.joins htaker ?_)
      rw [hheldid]
      refine Nat.lt_of_not_le fun hle => ?_
      rw [(isFull_iff hbound hget).mpr ⟨Nat.ne_of_gt pos, hle⟩] at hfree
      cases hfree

theorem walk_tracks {g : Grouping α κ σ} {size : Nat} {same : α → α → Bool}
    (heq : g.equality = some same) (hsize : g.maxSize = sizeBound size) (pos : 0 < size)
    {es : List (Entry α)} (hes : InOrder es) :
    ∃ slot, g.Tracks slot es (es.foldl g.place .empty) ∧
      g.Settled size same slot es (es.foldl g.place .empty).batches := by
  induction es using List.reverseRecOn with
  | nil => exact ⟨id, g.tracks_empty id, fun k b hb => absurd hb (by simp [Progress.empty])⟩
  | append_singleton es e ih =>
    obtain ⟨hes', hlt⟩ := hes.snoc
    obtain ⟨slot, h, settled⟩ := ih hes'
    rw [List.foldl_append]
    exact h.place heq hsize pos hlt (walk_sized pos hsize hes') settled

theorem sameRun_self {g : Grouping α κ σ} {es : List (Entry α)} (hes : InOrder es) {x : Entry α}
    (hx : x ∈ es) : g.SameRun es x x := by
  have hnodup : (es.map Entry.index).Nodup :=
    List.pairwise_map.mpr (hes.imp fun hlt => Nat.ne_of_lt hlt)
  intro d hd hle hge
  have hindex : d.index = x.index := by omega
  rw [List.inj_on_of_nodup_map hnodup hd hx hindex]

/-- An entry behind the first one of its batch is taken by it. -/
theorem Settles.taken {g : Grouping α κ σ} {size : Nat} {same : α → α → Bool} {slot : Nat → Nat}
    {es : List (Entry α)} {held : Nat → Batch α} {e f : Entry α} {k : Nat}
    (h : g.Settles es same slot held e size k) (hf : (held k).head? = some f) :
    g.key f.value = g.key e.value ∧ g.SameRun es f e ∧ same f.value e.value = true := by
  have hne : held k ≠ [] := by
    intro hnil
    rw [hnil] at hf
    cases hf
  cases h with
  | opens first => exact absurd first hne
  | replaces first => exact absurd first hne
  | joins taker =>
    obtain ⟨⟨⟨⟨d, hd, hkey, hrun⟩, _⟩, c, hc, hsame⟩, _⟩ := taker
    cases hf.symm.trans hd
    cases hf.symm.trans hc
    exact ⟨hkey, hrun, hsame⟩

/-- **Partitions under any relation.**  Whatever the finer equality may be, even if nothing is equal
to itself: every item is in one batch, once, and batches and their entries are in the order of
arrival.  A batch has at most as many entries as fit; they lie in one run and have one key, and the
first of them is related to all others.  And slots can be told for the batches such that every entry
settles: it opens a slot as no slot of its key and run has a latest batch whose first entry takes
it; or the first slot that does is full and is handed over to it; or it joins the batch there. -/
theorem partition_by_relation (key : α → κ) (series : α → σ) (same : α → α → Bool) (size : Nat)
    (pos : 0 < size) (items : List α) :
    let g : Grouping α κ σ := { key, series, equality := some same, maxSize := sizeBound size }
    let es := entries items
    let batches := g.partition items
    batches.flatten.Perm es ∧ FirstsInOrder batches ∧ (∀ b ∈ batches, InOrder b) ∧
    (∀ b ∈ batches, b.length ≤ size ∧
      (∀ x ∈ b, ∀ y ∈ b, g.SameRun es x y ∧ key x.value = key y.value) ∧
      ∃ first rest, b = first :: rest ∧ ∀ e ∈ rest, same first.value e.value = true) ∧
    ∃ slot : Nat → Nat, ∀ k b, batches[k]? = some b → ∀ e ∈ b,
      g.Settles es same slot (heldAt batches e.index) e size k := by
  intro g es batches
  have hes : InOrder es := entries_inOrder items
  obtain ⟨slot, h, settled⟩ := walk_tracks (g := g) rfl rfl pos hes
  have hbatches : batches = (es.foldl g.place .empty).batches := g.partition_eq_walk rfl items
  rw [hbatches]
  refine ⟨h.perm, h.firsts, h.inOrder, fun b hb => ?_, slot, settled⟩
  obtain ⟨k, hk⟩ := List.mem_iff_getElem?.mp hb
  obtain ⟨first, rest, rfl⟩ := List.exists_cons_of_ne_nil (h.nonempty b hb)
  obtain ⟨hlater, _⟩ := List.pairwise_cons.mp (h.inOrder _ hb)
  -- the first entry is there when the others come
  have htaken : ∀ e ∈ rest, key first.value = key e.value ∧ g.SameRun es first e ∧
      same first.value e.value = true := by
    intro e he
    refine (settled k _ hk e (List.mem_cons_of_mem _ he)).taken ?_
    unfold heldAt
    rw [hk]
    show ((first :: rest).filter _).head? = some first
    rw [List.filter_cons, if_pos (decide_eq_true (hlater e he))]
    rfl
  have hfirst : ∀ x ∈ first :: rest, g.SameRun es first x ∧ key first.value = key x.value := by
    intro x hx
    rcases List.mem_cons.mp hx with rfl | hx
    · exact ⟨sameRun_self hes (h.mem hb hx), rfl⟩
    · exact ⟨(htaken x hx).2.1, (htaken x hx).1⟩
  refine ⟨walk_sized pos rfl hes _ hb, fun x hx y hy => ?_, first, rest, rfl, fun e he =>
    (htaken e he).2.2⟩
  have hmem : ∀ x ∈ first :: rest, x ∈ es := fun x hx => h.mem hb hx
  obtain ⟨hxrun, hxkey⟩ := hfirst x hx
  obtain ⟨hyrun, hykey⟩ := hfirst y hy
  refine ⟨?_, hxkey.symm.trans hykey⟩
  exact (hxrun.symm (hmem x hx)).trans hyrun (hmem first List.mem_cons_self)

/-- An equality that only looks one way. -/
def rising : Grouping Nat Unit Unit where
  key _ := ()
  series _ := ()
  equality := some fun a b => a ≤ b
  maxSize := sizeBound 2

/-- The last item has the slot of the second one, as the slot of the first one has been handed over
to an item that does not take it. -/
theorem partition_by_relation_rising :
    0 < 2 ∧ rising.partition [3, 1, 4, 5, 2, 4]
        = [[⟨3, 0⟩, ⟨4, 2⟩], [⟨1, 1⟩, ⟨2, 4⟩], [⟨5, 3⟩], [⟨4, 5⟩]] ∧
      ∃ slot : Nat → Nat, rising.Settles (entries [3, 1, 4, 5, 2, 4]) (fun a b => a ≤ b) slot
        (heldAt (rising.partition [3, 1, 4, 5, 2, 4]) 5) ⟨4, 5⟩ 2 3 := by
  have hbatches : rising.partition [3, 1, 4, 5, 2, 4]
      = [[⟨3, 0⟩, ⟨4, 2⟩], [⟨1, 1⟩, ⟨2, 4⟩], [⟨5, 3⟩], [⟨4, 5⟩]] := by decide
  have hlast : (rising.partition [3, 1, 4, 5, 2, 4])[3]? = some [⟨4, 5⟩] := by
    rw [hbatches]
    rfl
  obtain ⟨_, _, _, _, slot, settled⟩ := partition_by_relation (fun _ : Nat => ()) (fun _ => ())
    (fun a b => a ≤ b) 2 (by decide) [3, 1, 4, 5, 2, 4]
  exact ⟨by decide, hbatches, slot, settled 3 _ hlast ⟨4, 5⟩ (List.mem_singleton_self _)⟩

end Grouping

end Coalesce
