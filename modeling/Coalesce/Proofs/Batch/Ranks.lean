import Coalesce.Proofs.Batch.Walk

/-!
# Runs and ranks

* `Grouping.SameRun`          no entry from one to the other has a series of its own;
* `Grouping.alike`            equal keys, and equal under the finer equality if there is one;
* `Grouping.rank`             the number of earlier entries of the run that are alike;
* `Grouping.block`            which block of the bound's size a rank falls into;
* `Grouping.Mates`            what the batches are to be: alike, in one run, and in one block;
* `Grouping.Ongoing`, `Grouping.tally`
                              the run of the last entry, and the rank of the next entry in it.

The finer equality is asked to be an equivalence, and then so is `Mates`.  An entry behind all
others changes neither runs nor ranks of those before it.
-/

set_option linter.unusedSectionVars false

namespace Coalesce

namespace Grouping

variable {α κ σ : Type} [DecidableEq κ] [DecidableEq σ]

/-- the finer equality is an equivalence, if there is one -/
def Lawful (g : Grouping α κ σ) : Prop :=
  ∀ same, g.equality = some same → Equivalence fun a b => same a b = true

def alike (g : Grouping α κ σ) (a b : α) : Bool :=
  g.key a = g.key b && match g.equality with
    | none => true
    | some same => same a b

theorem alike_iff (g : Grouping α κ σ) (a b : α) :
    g.alike a b = true ↔
      g.key a = g.key b ∧ ∀ same, g.equality = some same → same a b = true := by
  unfold alike
  cases h : g.equality with
  | none => simp
  | some same => simp

def SameRun (g : Grouping α κ σ) (es : List (Entry α)) (x y : Entry α) : Prop :=
  ∀ e ∈ es, min x.index y.index ≤ e.index → e.index ≤ max x.index y.index →
    g.series e.value = g.series x.value

instance (g : Grouping α κ σ) (es : List (Entry α)) (x y : Entry α) :
    Decidable (g.SameRun es x y) :=
  inferInstanceAs (Decidable (∀ e ∈ es, _ → _ → _ = _))

def rank (g : Grouping α κ σ) (es : List (Entry α)) (x : Entry α) : Nat :=
  es.countP fun e => e.index < x.index ∧ g.SameRun es e x ∧ g.alike e.value x.value

/-- Which block of so many a rank falls into; all are one block without a bound, or for a bound
of zero. -/
def block : Option Nat → Nat → Nat
  | none, _ => 0
  | some n, rank => if n = 0 then 0 else rank / n

/-- They belong into one batch. -/
def Mates (g : Grouping α κ σ) (bound : Option Nat) (es : List (Entry α)) (x y : Entry α) : Prop :=
  g.SameRun es x y ∧ g.alike x.value y.value ∧
    block bound (g.rank es x) = block bound (g.rank es y)

/-! ## equivalences -/

theorem block_eq (bound : Option Nat) (r : Nat) : block bound r = r / bound.getD 0 := by
  cases bound with
  | none => exact (Nat.div_zero r).symm
  | some n =>
    show (if n = 0 then 0 else r / n) = r / n
    split
    · rename_i h
      rw [h, Nat.div_zero]
    · rfl

section
variable {g : Grouping α κ σ} (hg : g.Lawful)
include hg

theorem alike_refl (a : α) : g.alike a a = true := by
  unfold alike
  cases h : g.equality with
  | none => simp
  | some same => simpa using (hg same h).refl a

theorem alike_symm {a b : α} (hab : g.alike a b = true) : g.alike b a = true := by
  unfold alike at hab ⊢
  cases h : g.equality with
  | none =>
    rw [h] at hab
    simp only [Bool.and_true, decide_eq_true_eq] at hab ⊢
    exact hab.symm
  | some same =>
    rw [h] at hab
    simp only [Bool.and_eq_true, decide_eq_true_eq] at hab ⊢
    exact ⟨hab.1.symm, (hg same h).symm hab.2⟩

theorem alike_trans {a b c : α} (hab : g.alike a b = true) (hbc : g.alike b c = true) :
    g.alike a c = true := by
  unfold alike at hab hbc ⊢
  cases h : g.equality with
  | none =>
    rw [h] at hab hbc
    simp only [Bool.and_true, decide_eq_true_eq] at hab hbc ⊢
    exact hab.trans hbc
  | some same =>
    rw [h] at hab hbc
    simp only [Bool.and_eq_true, decide_eq_true_eq] at hab hbc ⊢
    exact ⟨hab.1.trans hbc.1, (hg same h).trans hab.2 hbc.2⟩

theorem alike_right_congr {a b : α} (hab : g.alike a b = true) (c : α) :
    g.alike c a = g.alike c b := by
  rw [Bool.eq_iff_iff]
  exact ⟨fun h => alike_trans hg h hab, fun h => alike_trans hg h (alike_symm hg hab)⟩

end

section
variable {g : Grouping α κ σ} {es : List (Entry α)} {x y z : Entry α}

theorem SameRun.series_eq (h : g.SameRun es x y) (hy : y ∈ es) :
    g.series y.value = g.series x.value :=
  h y hy (Nat.min_le_right _ _) (Nat.le_max_right _ _)

theorem SameRun.symm (h : g.SameRun es x y) (hy : y ∈ es) : g.SameRun es y x := by
  intro e he h₁ h₂
  rw [Nat.min_comm] at h₁
  rw [Nat.max_comm] at h₂
  rw [h e he h₁ h₂, h.series_eq hy]

theorem SameRun.trans (h : g.SameRun es x y) (h' : g.SameRun es y z) (hy : y ∈ es) :
    g.SameRun es x z := by
  intro e he h₁ h₂
  by_cases hxy : min x.index y.index ≤ e.index ∧ e.index ≤ max x.index y.index
  · exact h e he hxy.1 hxy.2
  · rw [h' e he (by omega) (by omega), h.series_eq hy]

end

section
variable {g : Grouping α κ σ} (hg : g.Lawful) {bound : Option Nat} {es : List (Entry α)}
  {x y z : Entry α}
include hg

theorem Mates.symm (h : g.Mates bound es x y) (hy : y ∈ es) : g.Mates bound es y x :=
  ⟨h.1.symm hy, alike_symm hg h.2.1, h.2.2.symm⟩

theorem Mates.trans (h : g.Mates bound es x y) (h' : g.Mates bound es y z) (hy : y ∈ es) :
    g.Mates bound es x z :=
  ⟨h.1.trans h'.1 hy, alike_trans hg h.2.1 h'.2.1, h.2.2.trans h'.2.2⟩

end

/-! ## the last run -/

/-- No entry from this one on has another series. -/
def Ongoing (g : Grouping α κ σ) (es : List (Entry α)) (x : Entry α) : Prop :=
  ∀ e ∈ es, x.index ≤ e.index → g.series e.value = g.series x.value

instance (g : Grouping α κ σ) (es : List (Entry α)) (x : Entry α) : Decidable (g.Ongoing es x) :=
  inferInstanceAs (Decidable (∀ e ∈ es, _ → _ = _))

/-- The number of entries of the last run that are alike: the rank of the next such entry. -/
def tally (g : Grouping α κ σ) (es : List (Entry α)) (a : α) : Nat :=
  es.countP fun e => g.Ongoing es e ∧ g.alike e.value a

section
variable {g : Grouping α κ σ} {es : List (Entry α)} {e x y : Entry α}
  (hlt : ∀ x ∈ es, x.index < e.index)
include hlt

theorem sameRun_snoc (hx : x ∈ es) (hy : y ∈ es) :
    g.SameRun (es ++ [e]) x y ↔ g.SameRun es x y := by
  constructor
  · exact fun h d hd => h d (List.mem_append_left _ hd)
  · intro h d hd h₁ h₂
    rcases List.mem_append.mp hd with hd | hd
    · exact h d hd h₁ h₂
    · rw [List.mem_singleton.mp hd] at h₂
      have := hlt x hx
      have := hlt y hy
      omega

theorem sameRun_snoc_new (hx : x ∈ es) : g.SameRun (es ++ [e]) x e ↔ g.Ongoing (es ++ [e]) x := by
  have hxe := hlt x hx
  constructor
  · intro h d hd h₁
    refine h d hd (by omega) ?_
    rcases List.mem_append.mp hd with hd | hd
    · have := hlt d hd
      omega
    · rw [List.mem_singleton.mp hd]
      exact Nat.le_max_right _ _
  · intro h d hd h₁ _
    exact h d hd (by omega)

theorem ongoing_snoc (hx : x ∈ es) :
    g.Ongoing (es ++ [e]) x ↔ g.Ongoing es x ∧ g.series e.value = g.series x.value := by
  constructor
  · intro h
    refine ⟨fun d hd => h d (List.mem_append_left _ hd), h e ?_ (Nat.le_of_lt (hlt x hx))⟩
    exact List.mem_append_right _ (List.mem_singleton_self e)
  · rintro ⟨h, hs⟩ d hd h₁
    rcases List.mem_append.mp hd with hd | hd
    · exact h d hd h₁
    · rw [List.mem_singleton.mp hd]
      exact hs

theorem rank_snoc (hx : x ∈ es) : g.rank (es ++ [e]) x = g.rank es x := by
  unfold rank
  have hnot : ¬ e.index < x.index := by
    have := hlt x hx
    omega
  rw [List.countP_append, List.countP_singleton]
  simp only [hnot, false_and, decide_false, Bool.false_eq_true, if_false, Nat.add_zero]
  refine List.countP_congr fun d hd => ?_
  simp only [sameRun_snoc hlt hd hx]

theorem mates_snoc {bound : Option Nat} (hx : x ∈ es) (hy : y ∈ es) :
    g.Mates bound (es ++ [e]) x y ↔ g.Mates bound es x y := by
  unfold Mates
  rw [sameRun_snoc hlt hx hy, rank_snoc hlt hx, rank_snoc hlt hy]

theorem rank_snoc_new :
    g.rank (es ++ [e]) e
      = es.countP fun d => g.Ongoing (es ++ [e]) d ∧ g.alike d.value e.value := by
  unfold rank
  rw [List.countP_append, List.countP_singleton]
  simp only [Nat.lt_irrefl, false_and, decide_false, Bool.false_eq_true, if_false, Nat.add_zero]
  refine List.countP_congr fun d hd => ?_
  simp only [sameRun_snoc_new hlt hd, hlt d hd, true_and]

/-- as long as the last run goes on, it is the same one -/
theorem ongoing_snoc_iff (hx : x ∈ es) (hrun : g.Ongoing (es ++ [e]) x) (hy : y ∈ es) :
    g.Ongoing (es ++ [e]) y ↔ g.Ongoing es y := by
  obtain ⟨hox, hs⟩ := (ongoing_snoc hlt hx).mp hrun
  rw [ongoing_snoc hlt hy]
  refine ⟨And.left, fun h => ⟨h, ?_⟩⟩
  rcases Nat.le_total y.index x.index with hle | hle
  · rw [hs, h x hx hle]
  · rw [hs, hox y hy hle]

theorem ongoing_snoc_new : g.Ongoing (es ++ [e]) e := by
  intro d hd hle
  rcases List.mem_append.mp hd with hd | hd
  · have := hlt d hd
    omega
  · rw [List.mem_singleton.mp hd]

/-- An entry of the last run tells the rank of the next one that is like it. -/
theorem rank_snoc_new_of_alike (hg : g.Lawful) (hx : x ∈ es) (hrun : g.Ongoing (es ++ [e]) x)
    (hxe : g.alike x.value e.value = true) : g.rank (es ++ [e]) e = g.tally es x.value := by
  rw [rank_snoc_new hlt]
  unfold tally
  refine List.countP_congr fun d hd => ?_
  simp only [ongoing_snoc_iff hlt hx hrun hd, alike_right_congr hg hxe]

theorem tally_snoc (hx : x ∈ es) (hrun : g.Ongoing (es ++ [e]) x) :
    g.tally (es ++ [e]) x.value
      = g.tally es x.value + if g.alike e.value x.value = true then 1 else 0 := by
  unfold tally
  rw [List.countP_append, List.countP_singleton]
  have hnew : g.Ongoing (es ++ [e]) e := ongoing_snoc_new hlt
  simp only [hnew, true_and, decide_eq_true_eq]
  congr 1
  refine List.countP_congr fun d hd => ?_
  simp only [ongoing_snoc_iff hlt hx hrun hd]

theorem tally_snoc_new (hg : g.Lawful) :
    g.tally (es ++ [e]) e.value = g.rank (es ++ [e]) e + 1 := by
  rw [rank_snoc_new hlt]
  unfold tally
  rw [List.countP_append, List.countP_singleton]
  have hnew : g.Ongoing (es ++ [e]) e := ongoing_snoc_new hlt
  simp only [hnew, alike_refl hg, and_self, decide_true, if_true]

/-- ranks grow inside the last run -/
theorem rank_lt_rank_new (hg : g.Lawful) (hx : x ∈ es) (hrun : g.Ongoing (es ++ [e]) x)
    (hxe : g.alike x.value e.value = true) : g.rank es x < g.rank (es ++ [e]) e := by
  let earlier (d : Entry α) : Bool := d.index < x.index ∧ g.SameRun es d x ∧ g.alike d.value x.value
  let now (d : Entry α) : Bool := g.Ongoing (es ++ [e]) d ∧ g.alike d.value e.value
  rw [rank_snoc_new hlt]
  show es.countP earlier < es.countP now
  have himp : ∀ d ∈ es, earlier d = true → now d = true := by
    intro d hd h
    simp only [earlier, now, decide_eq_true_eq] at h ⊢
    obtain ⟨hdx, hsame, halike⟩ := h
    refine ⟨fun c hc hdc => ?_, alike_trans hg halike hxe⟩
    rcases Nat.le_total c.index x.index with hcx | hxc
    · rcases List.mem_append.mp hc with hc | hc
      · exact hsame c hc (by omega) (by omega)
      · rw [List.mem_singleton.mp hc] at hcx
        have := hlt x hx
        omega
    · rw [hrun c hc hxc, hsame.series_eq hx]
  have hsplit : es.countP earlier = (es.filter now).countP earlier := by
    rw [List.countP_filter]
    refine List.countP_congr fun d hd => ?_
    rw [Bool.and_eq_true]
    exact ⟨fun h => ⟨h, himp d hd h⟩, And.left⟩
  rw [hsplit, List.countP_eq_length_filter, List.countP_eq_length_filter]
  refine List.length_filter_lt_length_iff_exists.mpr ⟨x, List.mem_filter.mpr ⟨hx, ?_⟩, ?_⟩
  · exact decide_eq_true ⟨hrun, hxe⟩
  · simp [earlier]

end

end Grouping

end Coalesce
