import Coalesce.Proofs.Batch.RoundTrip

/-!
# What restoring refuses

* `Layout.Fillable`        positions that slots can take, each one once;
* `Layout.Free`            which slots are free when some positions are taken;
* `Layout.FirstDefect`     the first thing that is wrong with results for a layout, group by group;
* `Layout.restore_eq_ok_iff`
                           results are restored just if they fit a layout that has every position
                           once;
* `Layout.restore_eq_error_iff`
                           otherwise the error is that of the first defect.

There is no defect for a position that stays free: as many different positions in range as there
are slots are all of them.
-/

namespace Coalesce

namespace Layout

variable {α : Type}

/-! ## positions -/

def Fillable (size : Nat) (positions : List Nat) : Prop :=
  positions.Nodup ∧ ∀ i ∈ positions, i < size

/-- the first position of a group that is out of range, or taken already -/
def FirstUnfit (size : Nat) (taken group : List Nat) (i : Nat) : Prop :=
  ∃ front back, group = front ++ i :: back ∧ Fillable size (taken ++ front) ∧
    (size ≤ i ∨ i ∈ taken ++ front)

theorem fillable_nil (size : Nat) : Fillable size [] :=
  ⟨List.nodup_nil, fun _ h => absurd h List.not_mem_nil⟩

theorem fillable_append {size : Nat} {first second : List Nat} :
    Fillable size (first ++ second) ↔
      Fillable size first ∧ Fillable size second ∧ ∀ i ∈ second, i ∉ first := by
  unfold Fillable
  rw [List.nodup_append']
  simp only [List.mem_append, List.disjoint_right]
  grind

theorem fillable_snoc {size : Nat} {taken : List Nat} {i : Nat} (h : Fillable size taken) :
    Fillable size (taken ++ [i]) ↔ i < size ∧ i ∉ taken := by
  rw [fillable_append]
  constructor
  · rintro ⟨_, hi, hnew⟩
    exact ⟨hi.2 i (List.mem_singleton_self i), hnew i (List.mem_singleton_self i)⟩
  · rintro ⟨hlt, hnew⟩
    refine ⟨h, ⟨List.nodup_singleton i, fun j hj => ?_⟩, fun j hj => ?_⟩
    · rw [List.mem_singleton.mp hj]
      exact hlt
    · rw [List.mem_singleton.mp hj]
      exact hnew

/-- As many positions as there are slots are all of them. -/
theorem fillable_range_iff {size : Nat} {positions : List Nat} :
    Fillable size positions ∧ positions.length = size ↔ positions.Perm (List.range size) := by
  constructor
  · rintro ⟨⟨hnodup, hlt⟩, hlength⟩
    exact perm_range hnodup hlt hlength
  · intro h
    refine ⟨⟨h.nodup_iff.mpr List.nodup_range, fun i hi => ?_⟩, ?_⟩
    · exact List.mem_range.mp (h.mem_iff.mp hi)
    · rw [h.length_eq, List.length_range]

theorem Fillable.length_le {size : Nat} {positions : List Nat} (h : Fillable size positions) :
    positions.length ≤ size := by
  have hsub : positions.Subperm (List.range size) :=
    h.1.subperm fun i hi => List.mem_range.mpr (h.2 i hi)
  have hle := hsub.length_le
  rwa [List.length_range] at hle

section
variable {size : Nat} {taken rest : List Nat} {i j : Nat}

theorem not_fits_iff : ¬ (i < size ∧ i ∉ taken) ↔ size ≤ i ∨ i ∈ taken := by
  rw [not_and_or, Nat.not_lt, not_not]

theorem not_firstUnfit_nil : ¬ FirstUnfit size taken [] i := by
  rintro ⟨front, back, hsplit, _⟩
  exact List.append_ne_nil_of_right_ne_nil front (List.cons_ne_nil i back) hsplit.symm

theorem firstUnfit_cons_of_fits (fits : j < size ∧ j ∉ taken) :
    FirstUnfit size taken (j :: rest) i ↔ FirstUnfit size (taken ++ [j]) rest i := by
  constructor
  · rintro ⟨front, back, hsplit, hfill, hunfit⟩
    cases front with
    | nil =>
      obtain ⟨rfl, rfl⟩ := List.cons.inj hsplit
      rw [List.append_nil] at hunfit
      exact absurd fits (not_fits_iff.mpr hunfit)
    | cons k front =>
      obtain ⟨rfl, rfl⟩ := List.cons.inj hsplit
      rw [List.append_cons] at hfill hunfit
      exact ⟨front, back, rfl, hfill, hunfit⟩
  · rintro ⟨front, back, rfl, hfill, hunfit⟩
    rw [← List.append_cons] at hfill hunfit
    exact ⟨j :: front, back, rfl, hfill, hunfit⟩

theorem firstUnfit_cons_of_not_fits (h : Fillable size taken)
    (unfit : ¬ (j < size ∧ j ∉ taken)) :
    FirstUnfit size taken (j :: rest) i ↔ i = j := by
  constructor
  · rintro ⟨front, back, hsplit, hfill, _⟩
    cases front with
    | nil => exact (List.cons.inj hsplit).1.symm
    | cons k front =>
      obtain ⟨rfl, rfl⟩ := List.cons.inj hsplit
      rw [List.append_cons] at hfill
      exact absurd ((fillable_snoc h).mp (fillable_append.mp hfill).1) unfit
  · rintro rfl
    refine ⟨[], rest, rfl, ?_, ?_⟩
    · rwa [List.append_nil]
    · rw [List.append_nil]
      exact not_fits_iff.mp unfit

end

/-! ## slots -/

/-- Of so many slots, those are free whose positions are not taken. -/
def Free (slots : List (Option α)) (size : Nat) (taken : List Nat) : Prop :=
  ∀ i, slots[i]? = some none ↔ i < size ∧ i ∉ taken

theorem free_replicate (size : Nat) : Free (List.replicate size (none : Option α)) size [] := by
  intro i
  rw [List.getElem?_replicate]
  by_cases hi : i < size <;> simp [hi]

theorem Free.set {slots : List (Option α)} {size : Nat} {taken : List Nat}
    (h : Free slots size taken) (i : Nat) (r : α) :
    Free (slots.set i (some r)) size (taken ++ [i]) := by
  intro j
  rw [List.getElem?_set, List.mem_append, List.mem_singleton]
  by_cases hij : i = j
  · rw [if_pos hij]
    constructor
    · intro hj
      split at hj
      · cases hj
      · cases hj
    · exact fun hj => absurd (.inr hij.symm) hj.2
  · rw [if_neg hij, h j]
    exact and_congr_right fun _ => not_congr
      ⟨.inl, fun hj => hj.resolve_right fun heq => hij heq.symm⟩

/-- A slot is filled if it is free, and refused otherwise. -/
theorem Free.put {slots : List (Option α)} {size : Nat} {taken : List Nat}
    (h : Free slots size taken) (i : Nat) (r : α) :
    (i < size ∧ i ∉ taken → put slots i r = .ok (slots.set i (some r))) ∧
      (size ≤ i ∨ i ∈ taken → put slots i r = .error (.runtime (.layoutRepeats i))) := by
  refine ⟨fun hi => put_eq_ok.mpr ⟨(h i).mpr hi, rfl⟩, fun hi => ?_⟩
  unfold Layout.put
  split
  · rename_i hfree
    obtain ⟨hlt, hnew⟩ := (h i).mp hfree
    exact absurd hi (not_or.mpr ⟨Nat.not_le_of_lt hlt, hnew⟩)
  · rfl

theorem Free.putAll_ok {slots slots' : List (Option α)} {size : Nat} {taken : List Nat}
    (h : Free slots size taken) (fill : Fillable size taken) {results : List (Nat × α)}
    (put : putAll slots results = .ok slots') :
    Fillable size (taken ++ results.map Prod.fst) ∧
      Free slots' size (taken ++ results.map Prod.fst) := by
  induction results generalizing slots taken with
  | nil =>
    cases put
    rw [List.map_nil, List.append_nil]
    exact ⟨fill, h⟩
  | cons p rest ih =>
    obtain ⟨i, r⟩ := p
    rw [putAll_cons] at put
    obtain ⟨mid, hput, hrest⟩ := except_bind_eq_ok.mp put
    obtain ⟨hfree, rfl⟩ := put_eq_ok.mp hput
    rw [List.map_cons, List.append_cons]
    exact ih (h.set i r) ((fillable_snoc fill).mpr ((h i).mp hfree)) hrest

theorem Free.putAll_of_fillable {slots : List (Option α)} {size : Nat} {taken : List Nat}
    (h : Free slots size taken) {results : List (Nat × α)}
    (fill : Fillable size (taken ++ results.map Prod.fst)) :
    ∃ slots', putAll slots results = .ok slots' := by
  obtain ⟨_, ⟨hnodup, hlt⟩, hnew⟩ := fillable_append.mp fill
  refine putAll_of_nodup hnodup fun p hp => (h p.1).mpr ?_
  have hmem : p.1 ∈ results.map Prod.fst := List.mem_map.mpr ⟨p, hp, rfl⟩
  exact ⟨hlt p.1 hmem, hnew p.1 hmem⟩

theorem Free.putAll_error {slots : List (Option α)} {size : Nat} {taken : List Nat}
    (h : Free slots size taken) (fill : Fillable size taken) {results : List (Nat × α)}
    {cause : Error} :
    putAll slots results = .error cause ↔
      ∃ i, FirstUnfit size taken (results.map Prod.fst) i ∧
        cause = .runtime (.layoutRepeats i) := by
  induction results generalizing slots taken with
  | nil =>
    constructor
    · intro hput
      cases hput
    · rintro ⟨i, hi, _⟩
      exact absurd hi not_firstUnfit_nil
  | cons p rest ih =>
    obtain ⟨j, r⟩ := p
    rw [putAll_cons, List.map_cons]
    obtain ⟨hfree, htaken⟩ := h.put j r
    by_cases hj : j < size ∧ j ∉ taken
    · simp only [firstUnfit_cons_of_fits hj]
      rw [hfree hj]
      exact ih (h.set j r) ((fillable_snoc fill).mpr hj)
    · simp only [firstUnfit_cons_of_not_fits fill hj]
      rw [htaken (not_fits_iff.mp hj)]
      constructor
      · intro hput
        cases hput
        exact ⟨j, rfl, rfl⟩
      · rintro ⟨i, rfl, rfl⟩
        rfl

/-! ## groups -/

/-- The first thing that is wrong with groups and their results, when some positions are taken. -/
inductive GroupDefect (size : Nat) (taken : List Nat) (pairs : List (List Nat × List α)) :
    Error → Prop where
  /-- all is well up to a group, but there are more results for it or fewer than positions -/
  | length (done : List (List Nat × List α)) (group : List Nat) (part : List α)
      (rest : List (List Nat × List α)) (split : pairs = done ++ (group, part) :: rest)
      (fit : ∀ p ∈ done, p.1.length = p.2.length)
      (fill : Fillable size (taken ++ done.flatMap Prod.fst))
      (other : group.length ≠ part.length) :
      GroupDefect size taken pairs (.protocol "batch" group.length part.length none)
  /-- all is well up to a position in a group, but that one is out of range or taken already -/
  | position (done : List (List Nat × List α)) (group : List Nat) (part : List α)
      (rest : List (List Nat × List α)) (split : pairs = done ++ (group, part) :: rest)
      (fit : ∀ p ∈ done, p.1.length = p.2.length) (same : group.length = part.length)
      (i : Nat) (first : FirstUnfit size (taken ++ done.flatMap Prod.fst) group i) :
      GroupDefect size taken pairs (.runtime (.layoutRepeats i))

theorem GroupDefect.fillable {size : Nat} {taken : List Nat} {pairs : List (List Nat × List α)}
    {cause : Error} (h : GroupDefect size taken pairs cause) : Fillable size taken := by
  cases h with
  | length done group part rest split fit fill other => exact (fillable_append.mp fill).1
  | position done group part rest split fit same i first =>
    obtain ⟨front, back, _, hfill, _⟩ := first
    exact (fillable_append.mp (fillable_append.mp hfill).1).1

theorem groupDefect_nil {size : Nat} {taken : List Nat} {cause : Error} :
    ¬ GroupDefect size taken ([] : List (List Nat × List α)) cause := by
  have hnot : ∀ (done : List (List Nat × List α)) p rest, [] ≠ done ++ p :: rest :=
    fun done p rest h =>
      List.append_ne_nil_of_right_ne_nil done (List.cons_ne_nil p rest) h.symm
  rintro (⟨done, group, part, rest, split, _⟩ | ⟨done, group, part, rest, split, _⟩)
  · exact hnot _ _ _ split
  · exact hnot _ _ _ split

theorem groupDefect_cons {size : Nat} {taken : List Nat} (fill : Fillable size taken)
    {group : List Nat} {part : List α} {rest : List (List Nat × List α)} {cause : Error} :
    GroupDefect size taken ((group, part) :: rest) cause ↔
      group.length ≠ part.length ∧ cause = .protocol "batch" group.length part.length none ∨
      group.length = part.length ∧
        ((∃ i, FirstUnfit size taken group i ∧ cause = .runtime (.layoutRepeats i)) ∨
          GroupDefect size (taken ++ group) rest cause) := by
  constructor
  · intro h
    cases h with
    | length done g r rest' split fit hfill other =>
      cases done with
      | nil =>
        cases split
        exact .inl ⟨other, rfl⟩
      | cons p done =>
        obtain ⟨rfl, rfl⟩ := List.cons.inj split
        obtain ⟨hp, hdone⟩ := List.forall_mem_cons.mp fit
        rw [List.flatMap_cons, ← List.append_assoc] at hfill
        exact .inr ⟨hp, .inr (.length done g r rest' rfl hdone hfill other)⟩
    | position done g r rest' split fit same i first =>
      cases done with
      | nil =>
        cases split
        rw [List.flatMap_nil, List.append_nil] at first
        exact .inr ⟨same, .inl ⟨i, first, rfl⟩⟩
      | cons p done =>
        obtain ⟨rfl, rfl⟩ := List.cons.inj split
        obtain ⟨hp, hdone⟩ := List.forall_mem_cons.mp fit
        rw [List.flatMap_cons, ← List.append_assoc] at first
        exact .inr ⟨hp, .inr (.position done g r rest' rfl hdone same i first)⟩
  · rintro (⟨other, rfl⟩ | ⟨same, ⟨i, hi, rfl⟩ | hrest⟩)
    · refine .length [] group part rest rfl (fun p hp => absurd hp List.not_mem_nil) ?_ other
      rwa [List.flatMap_nil, List.append_nil]
    · refine .position [] group part rest rfl (fun p hp => absurd hp List.not_mem_nil) same i ?_
      rwa [List.flatMap_nil, List.append_nil]
    · cases hrest with
      | length done g r rest' split fit hfill other =>
        rw [split]
        refine .length ((group, part) :: done) g r rest' rfl
          (List.forall_mem_cons.mpr ⟨same, fit⟩) ?_ other
        rwa [List.flatMap_cons, ← List.append_assoc]
      | position done g r rest' split fit hsame i first =>
        rw [split]
        refine .position ((group, part) :: done) g r rest' rfl
          (List.forall_mem_cons.mpr ⟨same, fit⟩) hsame i ?_
        rwa [List.flatMap_cons, ← List.append_assoc]

theorem Free.putGroups_error {slots : List (Option α)} {size : Nat} {taken : List Nat}
    (h : Free slots size taken) (fill : Fillable size taken)
    {pairs : List (List Nat × List α)} {cause : Error} :
    putGroups slots pairs = .error cause ↔ GroupDefect size taken pairs cause := by
  induction pairs generalizing slots taken with
  | nil =>
    refine ⟨fun hput => ?_, fun hdefect => absurd hdefect groupDefect_nil⟩
    cases hput
  | cons p rest ih =>
    obtain ⟨group, part⟩ := p
    rw [groupDefect_cons fill]
    unfold putGroups
    by_cases hlen : group.length = part.length
    · have hpositions : (group.zip part).map Prod.fst = group :=
        List.map_fst_zip (Nat.le_of_eq hlen)
      rw [if_neg (not_not.mpr hlen), except_bind_eq_error, h.putAll_error fill, hpositions]
      constructor
      · rintro (hunfit | ⟨slots', hput, hrest⟩)
        · exact .inr ⟨hlen, .inl hunfit⟩
        · obtain ⟨hfill, hfree⟩ := h.putAll_ok fill hput
          rw [hpositions] at hfill hfree
          exact .inr ⟨hlen, .inr ((ih hfree hfill).mp hrest)⟩
      · rintro (⟨hne, _⟩ | ⟨_, hunfit | hrest⟩)
        · exact absurd hlen hne
        · exact .inl hunfit
        · have hfill := hrest.fillable
          rw [← hpositions] at hfill
          obtain ⟨slots', hput⟩ := h.putAll_of_fillable hfill
          have hfree := (h.putAll_ok fill hput).2
          rw [hpositions] at hfill hfree
          exact .inr ⟨slots', hput, (ih hfree hfill).mpr hrest⟩
    · rw [if_pos hlen]
      constructor
      · intro hput
        cases hput
        exact .inl ⟨hlen, rfl⟩
      · rintro (⟨_, rfl⟩ | ⟨hlen', _⟩)
        · rfl
        · exact absurd hlen' hlen

/-! ## layouts -/

/-- The first thing that is wrong with results for a layout. -/
inductive FirstDefect (l : Layout) (results : List (List α)) : Error → Prop where
  /-- there are more results or fewer than groups -/
  | count (other : results.length ≠ l.groups.length) :
      FirstDefect l results (.protocol "batch" l.groups.length results.length none)
  | group (same : results.length = l.groups.length) (cause : Error)
      (first : GroupDefect l.size [] (l.groups.zip results) cause) : FirstDefect l results cause

theorem shape_iff {groups : List (List Nat)} {results : List (List α)} :
    results.map List.length = groups.map List.length ↔
      results.length = groups.length ∧ ∀ p ∈ groups.zip results, p.1.length = p.2.length := by
  constructor
  · intro h
    exact ⟨by simpa using congrArg List.length h, (placements_positions h).1⟩
  · rintro ⟨hcount, hfit⟩
    induction groups generalizing results with
    | nil =>
      rw [List.length_eq_zero_iff.mp hcount]
      rfl
    | cons g gs ih =>
      cases results with
      | nil => cases hcount
      | cons r rs =>
        obtain ⟨hfirst, hrest⟩ := List.forall_mem_cons.mp hfit
        exact congrArg₂ List.cons hfirst.symm (ih (Nat.succ.inj hcount) hrest)

/-- positions that all slots take, one each -/
theorem Fillable.perm {l : Layout} (h : Fillable l.size l.groups.flatten) :
    l.groups.flatten.Perm (List.range l.size) :=
  fillable_range_iff.mp ⟨h, rfl⟩

/-- Slots that all are taken have been given results for each position of the layout, once. -/
theorem fillable_of_putGroups {l : Layout} {results : List (List α)} {slots : List (Option α)}
    (same : results.length = l.groups.length)
    (h : putGroups (List.replicate l.size none) (l.groups.zip results) = .ok slots) :
    results.map List.length = l.groups.map List.length ∧ Fillable l.size l.groups.flatten := by
  obtain ⟨hfit, hput⟩ := putGroups_eq_ok.mp h
  have hshape := shape_iff.mpr ⟨same, hfit⟩
  have hfill := ((free_replicate l.size).putAll_ok (fillable_nil l.size) hput).1
  have hpositions : (placements l.groups results).map Prod.fst = l.groups.flatten :=
    (placements_positions hshape).2
  refine ⟨hshape, ?_⟩
  rw [← hpositions]
  exact hfill

variable {l : Layout} {results : List (List α)}

theorem restore_eq_ok_iff :
    (∃ values, l.restore results = .ok values) ↔
      results.map List.length = l.groups.map List.length ∧
        l.groups.flatten.Perm (List.range l.size) := by
  constructor
  · rintro ⟨values, h⟩
    have hcount := (restore_ok h).1
    unfold restore at h
    rw [if_neg (not_not.mpr hcount)] at h
    obtain ⟨slots, hput, _⟩ := except_bind_eq_ok.mp h
    obtain ⟨hshape, hfill⟩ := fillable_of_putGroups hcount hput
    exact ⟨hshape, hfill.perm⟩
  · rintro ⟨hshape, hperm⟩
    exact restore_of_perm hperm hshape

theorem restore_eq_error_iff {cause : Error} :
    l.restore results = .error cause ↔ l.FirstDefect results cause := by
  by_cases hcount : results.length = l.groups.length
  · have hgroups : putGroups (List.replicate l.size none) (l.groups.zip results) = .error cause ↔
        GroupDefect l.size [] (l.groups.zip results) cause :=
      (free_replicate l.size).putGroups_error (fillable_nil l.size)
    have hrestore : l.restore results = .error cause ↔
        putGroups (List.replicate l.size none) (l.groups.zip results) = .error cause := by
      constructor
      · intro h
        cases hput : putGroups (List.replicate l.size none) (l.groups.zip results) with
        | error cause' =>
          unfold restore at h
          rw [if_neg (not_not.mpr hcount), hput] at h
          cases h
          rfl
        | ok slots =>
          -- when all positions are taken, no slot is left
          obtain ⟨hshape, hfill⟩ := fillable_of_putGroups hcount hput
          obtain ⟨values, hvalues⟩ := restore_of_perm hfill.perm hshape
          rw [hvalues] at h
          cases h
      · intro h
        unfold restore
        rw [if_neg (not_not.mpr hcount), h]
        rfl
    rw [hrestore, hgroups]
    refine ⟨fun h => .group hcount cause h, fun h => ?_⟩
    cases h with
    | count other => exact absurd hcount other
    | group _ _ first => exact first
  · unfold restore
    rw [if_pos hcount]
    constructor
    · intro h
      cases h
      exact .count hcount
    · intro h
      cases h with
      | count _ => rfl
      | group same _ _ => exact absurd same hcount

/-- **Restoring accepts permutations only.**  Results are restored just if they fit the groups of
the layout and these have every position once; then they are as many as there are positions, and
each of them is at its position.  Otherwise the error is that of the first defect in the order of
the groups: a number of groups or of results that differs, or a position that is out of range or
taken already.  A position that is left out is never the first defect. -/
theorem restore_exact (l : Layout) (results : List (List α)) :
    ((∃ values, l.restore results = .ok values) ↔
      results.map List.length = l.groups.map List.length ∧
        l.groups.flatten.Perm (List.range l.size)) ∧
    (∀ values, l.restore results = .ok values → values.length = l.size ∧
      ∀ place i, cell l.groups place = some i →
        ∃ r, cell results place = some r ∧ values[i]? = some r) ∧
    (∀ cause, l.restore results = .error cause ↔ l.FirstDefect results cause) ∧
    (∀ cause, l.restore results = .error cause →
      (∃ expected actual, cause = .protocol "batch" expected actual none) ∨
        ∃ i, cause = .runtime (.layoutRepeats i)) ∧
    l.restore results ≠ .error (.runtime .layoutMisses) := by
  have hkinds : ∀ cause, l.restore results = .error cause →
      (∃ expected actual, cause = .protocol "batch" expected actual none) ∨
        ∃ i, cause = .runtime (.layoutRepeats i) := by
    intro cause h
    cases restore_eq_error_iff.mp h with
    | count _ => exact .inl ⟨_, _, rfl⟩
    | group _ _ first =>
      cases first with
      | length => exact .inl ⟨_, _, rfl⟩
      | position => exact .inr ⟨_, rfl⟩
  refine ⟨restore_eq_ok_iff, fun values h => ?_, fun cause => restore_eq_error_iff, hkinds,
    fun h => ?_⟩
  · obtain ⟨hshape, _⟩ := restore_eq_ok_iff.mp ⟨values, h⟩
    obtain ⟨_, _, hlength, hplaced⟩ := restore_ok h
    refine ⟨hlength, fun place i hi => ?_⟩
    obtain ⟨r, hr⟩ := cell_of_shape hshape hi
    obtain ⟨group, hgroup, hposition⟩ := cell_eq_some.mp hi
    obtain ⟨part, hpart, hresult⟩ := cell_eq_some.mp hr
    exact ⟨r, hr, hplaced (i, r) (mem_placements hgroup hpart hposition hresult)⟩
  · obtain ⟨_, _, hcause⟩ | ⟨_, hcause⟩ := hkinds _ h
    · cases hcause
    · cases hcause

/-- a group without positions, and groups that share one before another is out of range -/
theorem restore_exact_overlap :
    (∃ values, (Layout.mk [[2, 0], [], [1]]).restore [["c", "a"], [], ["b"]] = .ok values ∧
      values.length = 3 ∧ values[2]? = some "c") ∧
    (Layout.mk [[2, 0], [0, 9], [1]]).restore [["c", "a"], ["x", "y"], ["b"]]
      = .error (.runtime (.layoutRepeats 0)) := by
  obtain ⟨hok, hvalues, _⟩ := restore_exact (Layout.mk [[2, 0], [], [1]]) [["c", "a"], [], ["b"]]
  obtain ⟨values, hrestore⟩ := hok.mpr ⟨rfl, by decide⟩
  obtain ⟨hlength, hplaced⟩ := hvalues values hrestore
  obtain ⟨r, hr, hvalue⟩ := hplaced (0, 0) 2 rfl
  cases hr
  obtain ⟨_, _, herror, _⟩ :=
    restore_exact (Layout.mk [[2, 0], [0, 9], [1]]) [["c", "a"], ["x", "y"], ["b"]]
  have hfill : Fillable 5 [2, 0] := ⟨by decide, by decide⟩
  refine ⟨⟨values, hrestore, hlength, hvalue⟩, (herror _).mpr (.group (by decide) _ ?_)⟩
  exact .position [([2, 0], ["c", "a"])] [0, 9] ["x", "y"] [([1], ["b"])] rfl (by decide) rfl 0
    ⟨[], [9], rfl, hfill, .inr (by decide)⟩

end Layout

end Coalesce
