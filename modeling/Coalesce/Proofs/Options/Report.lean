import Coalesce.Proofs.Options.Settings
import Mathlib.Data.List.Basic

/-!
# What is told of the options

* `Field.fault`                  the clamp of a number that lies outside its bounds;
* `Options.resolve_eq`           a resolution field by field: all clamps in order, and then what the
                                 strategy has overridden;
* `Adjustment.Chain`             changes that lead from one number to another;
* `Adjustment.Justified`         the reason given for a change is the true one;
* `Settings.resolve_toOptions`   sound settings ask for themselves;
* `Options.resolve_accounted`    so every change is accounted for, with one exception.

Fields are treated alike: what is said of a field is said once, with the field as a parameter.
-/

namespace Coalesce

/-! ## numbers and their bounds -/

namespace Bounds

/-- the number lies within the bounds -/
def Admits (b : Bounds) (n : Nat) : Prop := b.low ≤ n ∧ n ≤ b.high

variable {b : Bounds} {n : Nat}

theorem clamp_of_lt (h : n < b.low) : b.clamp n = b.low := by
  unfold clamp
  omega

theorem clamp_of_gt (order : b.low ≤ b.high) (h : b.high < n) : b.clamp n = b.high := by
  unfold clamp
  omega

theorem clamp_of_admits (h : b.Admits n) : b.clamp n = n := by
  unfold clamp
  unfold Admits at h
  omega

end Bounds

namespace Field

def bounds : Field → Bounds
  | .maxSize => Bounds.maxSize
  | .waitQueries => Bounds.waitQueries
  | .waitMillis => Bounds.waitMillis

/-- all fields, in the order of the report -/
def all : List Field := [.maxSize, .waitQueries, .waitMillis]

theorem mem_all (f : Field) : f ∈ all := by cases f <;> decide

theorem low_le_high (f : Field) : f.bounds.low ≤ f.bounds.high := by cases f <;> decide

/-- The default of a field lies within its bounds. -/
theorem usual_admitted (f : Field) : f.bounds.Admits f.bounds.usual := by
  cases f <;> exact ⟨by decide, by decide⟩

theorem clamp_admitted (f : Field) (n : Nat) : f.bounds.Admits (f.bounds.clamp n) :=
  ⟨f.bounds.low_le_clamp n, Bounds.clamp_le_high f.low_le_high n⟩

/-- the clamp of a number outside its bounds -/
def fault (f : Field) (n : Nat) : Option Adjustment :=
  if n < f.bounds.low then some ⟨f, n, f.bounds.low, .belowMinimum⟩
  else if f.bounds.high < n then some ⟨f, n, f.bounds.high, .aboveMaximum⟩
  else none

variable {f : Field} {n : Nat} {a : Adjustment}

theorem fault_eq_some (h : f.fault n = some a) :
    n < f.bounds.low ∧ a = ⟨f, n, f.bounds.low, .belowMinimum⟩ ∨
      f.bounds.high < n ∧ a = ⟨f, n, f.bounds.high, .aboveMaximum⟩ := by
  unfold fault at h
  split at h
  · rename_i hlow
    cases h
    exact .inl ⟨hlow, rfl⟩
  · split at h
    · rename_i hhigh
      cases h
      exact .inr ⟨hhigh, rfl⟩
    · cases h

theorem fault_field (h : f.fault n = some a) : a.field = f := by
  obtain ⟨_, rfl⟩ | ⟨_, rfl⟩ := fault_eq_some h <;> rfl

theorem fault_eq_none : f.fault n = none ↔ f.bounds.Admits n := by
  unfold fault Bounds.Admits
  split
  · simp
    omega
  · split
    · simp
      omega
    · simp
      omega

end Field

/-- A field resolves to the clamp of its number, and tells of it if that is another number. -/
theorem Bounds.resolve_eq (f : Field) (given : Option Nat) :
    f.bounds.resolve f given
      = (f.bounds.clamp (given.getD f.bounds.usual),
          (f.fault (given.getD f.bounds.usual)).toList) := by
  unfold Bounds.resolve Field.fault
  generalize given.getD f.bounds.usual = n
  dsimp only
  by_cases hlow : n < f.bounds.low
  · have hother : f.bounds.low ≠ n := (Nat.ne_of_lt hlow).symm
    rw [clamp_of_lt hlow, if_neg hother, if_pos hlow, if_pos hlow]
    rfl
  · rw [if_neg hlow, if_neg hlow]
    by_cases hhigh : f.bounds.high < n
    · have hother : f.bounds.high ≠ n := Nat.ne_of_lt hhigh
      rw [clamp_of_gt f.low_le_high hhigh, if_neg hother, if_pos hhigh]
      rfl
    · have hadmits : f.bounds.Admits n := ⟨Nat.not_lt.mp hlow, Nat.not_lt.mp hhigh⟩
      rw [clamp_of_admits hadmits, if_pos rfl, if_neg hhigh]
      rfl

/-! ## the report -/

namespace Options

/-- the number that is asked for, if any -/
def given (o : Options) : Field → Option Nat
  | .maxSize => o.maxSize
  | .waitQueries => o.wait.queries
  | .waitMillis => o.wait.millis

/-- the number that is asked for, or else the default -/
def wanted (o : Options) (f : Field) : Nat := (o.given f).getD f.bounds.usual

def clamped (o : Options) (f : Field) : Nat := f.bounds.clamp (o.wanted f)

theorem wanted_usual (o : Options) (f : Field) (h : o.given f = none) :
    o.wanted f = f.bounds.usual := by
  unfold wanted
  rw [h]
  rfl

/-- the change that the strategy forces, as far as it is told -/
def override (o : Options) : Option Adjustment :=
  if (o.strategy = .indiscriminate ∧ o.clamped .waitQueries ≠ o.clamped .maxSize)
      ∧ o.wait.queries.isSome then
    some ⟨.waitQueries, o.clamped .waitQueries, o.clamped .maxSize, .forcedByStrategy⟩
  else none

/-- the changes of one field, in the order of the report -/
def changes (o : Options) (f : Field) : List Adjustment := o.resolve.2.filter (·.field = f)

/-- All there is to know about a resolution, field by field. -/
theorem resolve_eq (o : Options) :
    o.resolve =
      (⟨o.strategy, o.style, o.clamped .maxSize,
          if o.strategy = .indiscriminate then o.clamped .maxSize else o.clamped .waitQueries,
          o.clamped .waitMillis⟩,
        Field.all.flatMap (fun f => (f.fault (o.wanted f)).toList) ++ o.override.toList) := by
  have hsize : Bounds.maxSize.resolve .maxSize o.maxSize
      = (o.clamped .maxSize, (Field.maxSize.fault (o.wanted .maxSize)).toList) :=
    Bounds.resolve_eq .maxSize o.maxSize
  have hqueries : Bounds.waitQueries.resolve .waitQueries o.wait.queries
      = (o.clamped .waitQueries, (Field.waitQueries.fault (o.wanted .waitQueries)).toList) :=
    Bounds.resolve_eq .waitQueries o.wait.queries
  have hmillis : Bounds.waitMillis.resolve .waitMillis o.wait.millis
      = (o.clamped .waitMillis, (Field.waitMillis.fault (o.wanted .waitMillis)).toList) :=
    Bounds.resolve_eq .waitMillis o.wait.millis
  have hqueried : (if o.strategy = .indiscriminate ∧ o.clamped .waitQueries ≠ o.clamped .maxSize
      then o.clamped .maxSize else o.clamped .waitQueries)
        = if o.strategy = .indiscriminate then o.clamped .maxSize else o.clamped .waitQueries := by
    by_cases hmixes : o.strategy = .indiscriminate <;>
      by_cases hsame : o.clamped .waitQueries = o.clamped .maxSize <;> simp [hmixes, hsame]
  unfold resolve
  rw [hsize, hqueries, hmillis]
  dsimp only
  rw [hqueried]
  refine congrArg (Prod.mk _) ?_
  simp only [Field.all, List.flatMap_cons, List.flatMap_nil, List.append_nil, List.append_assoc]
  unfold override
  split <;> rfl

end Options

/-- the number of a field -/
def Settings.number (s : Settings) : Field → Nat
  | .maxSize => s.maxSize
  | .waitQueries => s.waitQueries
  | .waitMillis => s.waitMillis

theorem Settings.ext_number {s t : Settings} (strategy : s.strategy = t.strategy)
    (style : s.style = t.style) (numbers : ∀ f, s.number f = t.number f) : s = t := by
  obtain ⟨_, _, _, _, _⟩ := s
  obtain ⟨_, _, _, _, _⟩ := t
  cases strategy
  cases style
  cases numbers .maxSize
  cases numbers .waitQueries
  cases numbers .waitMillis
  rfl

namespace Options

variable (o : Options)

theorem settings_number (f : Field) : o.settings.number f =
    if o.strategy = .indiscriminate ∧ f = .waitQueries then o.clamped .maxSize
    else o.clamped f := by
  unfold settings
  rw [resolve_eq]
  cases f with
  | maxSize => simp [Settings.number]
  | waitQueries => simp [Settings.number]
  | waitMillis => simp [Settings.number]

theorem settings_admitted (f : Field) : f.bounds.Admits (o.settings.number f) := by
  rw [settings_number]
  split
  · rename_i h
    -- what fits one batch may also be waited for
    rw [h.2]
    obtain ⟨hlow, hhigh⟩ := Field.maxSize.clamp_admitted (o.wanted .maxSize)
    exact ⟨hlow, Nat.le_trans hhigh (by decide)⟩
  · exact f.clamp_admitted (o.wanted f)

theorem override_eq_some {a : Adjustment} (h : o.override = some a) :
    o.strategy = .indiscriminate ∧ o.clamped .waitQueries ≠ o.clamped .maxSize ∧
      a = ⟨.waitQueries, o.clamped .waitQueries, o.clamped .maxSize, .forcedByStrategy⟩ := by
  unfold override at h
  split at h
  · rename_i hforced
    cases h
    exact ⟨hforced.1.1, hforced.1.2, rfl⟩
  · cases h

theorem override_eq_none : o.override = none ↔ (o.strategy = .indiscriminate →
    o.clamped .waitQueries = o.clamped .maxSize ∨ o.wait.queries = none) := by
  unfold override
  split
  · rename_i hforced
    refine iff_of_false (Option.some_ne_none _) fun h => ?_
    obtain hsame | hnone := h hforced.1.1
    · exact hforced.1.2 hsame
    · rw [hnone] at hforced
      cases hforced.2
  · rename_i hfree
    refine iff_of_true rfl fun hmixes => ?_
    by_contra hneither
    obtain ⟨hother, hgiven⟩ := not_or.mp hneither
    exact hfree ⟨⟨hmixes, hother⟩, Option.isSome_iff_ne_none.mpr hgiven⟩

theorem mem_report {a : Adjustment} : a ∈ o.resolve.2 ↔
    (∃ f : Field, f.fault (o.wanted f) = some a) ∨ o.override = some a := by
  rw [resolve_eq, List.mem_append, List.mem_flatMap, Option.mem_toList]
  refine or_congr_left ⟨fun ⟨f, _, hf⟩ => ⟨f, Option.mem_toList.mp hf⟩, fun ⟨f, hf⟩ => ?_⟩
  exact ⟨f, f.mem_all, Option.mem_toList.mpr hf⟩

/-- The changes of a field are its clamp, and then what the strategy overrides. -/
theorem changes_eq (f : Field) : o.changes f =
    (f.fault (o.wanted f)).toList ++ if f = .waitQueries then o.override.toList else [] := by
  have hfault : ∀ g : Field, (g.fault (o.wanted g)).toList.filter (·.field = f)
      = if g = f then (g.fault (o.wanted g)).toList else [] := by
    intro g
    cases hg : g.fault (o.wanted g) with
    | none => simp
    | some a => simp [Field.fault_field hg, List.filter_cons]
  have hoverride : o.override.toList.filter (·.field = f)
      = if f = .waitQueries then o.override.toList else [] := by
    cases ho : o.override with
    | none => simp
    | some a =>
      obtain ⟨_, _, rfl⟩ := o.override_eq_some ho
      simp [List.filter_cons, eq_comm]
  unfold changes
  rw [resolve_eq, List.filter_append, List.filter_flatMap, hoverride]
  simp only [hfault]
  cases f <;> simp [Field.all]

end Options

/-! ## chains of changes -/

namespace Adjustment

/-- changes that lead from one number to another, each from where the one before has come to -/
def Chain : Nat → List Adjustment → Nat → Prop
  | first, [], last => first = last
  | first, a :: rest, last => a.requested = first ∧ Chain a.applied rest last

theorem Chain.append {l m n : Nat} {as bs : List Adjustment} (h : Chain l as m)
    (h' : Chain m bs n) : Chain l (as ++ bs) n := by
  induction as generalizing l with
  | nil =>
    cases h
    exact h'
  | cons a as ih => exact ⟨h.1, ih h.2⟩

/-- The reason given for a change is the true one: a number was below its bounds, or above them, or
it was within and gave way to the size of a batch. -/
def Justified (o : Options) (a : Adjustment) : Prop :=
  match a.reason with
  | .belowMinimum =>
    a.requested < a.field.bounds.low ∧ a.applied = a.field.bounds.low
  | .aboveMaximum =>
    a.field.bounds.high < a.requested ∧ a.applied = a.field.bounds.high
  | .forcedByStrategy =>
    a.field.bounds.Admits a.requested ∧ a.applied = o.settings.maxSize ∧
      a.field = .waitQueries ∧ o.strategy = .indiscriminate

end Adjustment

/-! ## every change is accounted for -/

theorem Field.fault_chain (f : Field) (n : Nat) :
    Adjustment.Chain n (f.fault n).toList (f.bounds.clamp n) := by
  cases h : f.fault n with
  | none => exact (Bounds.clamp_of_admits (fault_eq_none.mp h)).symm
  | some a =>
    obtain ⟨hlow, rfl⟩ | ⟨hhigh, rfl⟩ := fault_eq_some h
    · exact ⟨rfl, (Bounds.clamp_of_lt hlow).symm⟩
    · exact ⟨rfl, (Bounds.clamp_of_gt f.low_le_high hhigh).symm⟩

theorem Field.fault_justified {f : Field} {n : Nat} {a : Adjustment} (h : f.fault n = some a)
    (o : Options) : a.applied ≠ a.requested ∧ a.Justified o := by
  obtain ⟨hlow, rfl⟩ | ⟨hhigh, rfl⟩ := fault_eq_some h
  · exact ⟨(Nat.ne_of_lt hlow).symm, hlow, rfl⟩
  · exact ⟨Nat.ne_of_lt hhigh, hhigh, rfl⟩

namespace Options

variable (o : Options)

theorem settings_maxSize : o.settings.maxSize = o.clamped .maxSize := by
  have hnumber := o.settings_number .maxSize
  rw [if_neg (fun h => Field.noConfusion h.2)] at hnumber
  exact hnumber

theorem override_justified {a : Adjustment} (h : o.override = some a) :
    a.applied ≠ a.requested ∧ a.Justified o := by
  obtain ⟨hmixes, hother, rfl⟩ := o.override_eq_some h
  exact ⟨hother.symm, Field.waitQueries.clamp_admitted _, o.settings_maxSize.symm, rfl, hmixes⟩

/-- The default of `wait.queries` gives way to the size of a batch, and nobody is told. -/
def Unsaid (o : Options) : Prop :=
  o.strategy = .indiscriminate ∧ o.wait.queries = none ∧
    o.settings.maxSize ≠ Bounds.waitQueries.usual

theorem override_chain (told : ¬ o.Unsaid) :
    Adjustment.Chain (o.clamped .waitQueries) o.override.toList
      (o.settings.number .waitQueries) := by
  rw [settings_number]
  cases h : o.override with
  | some a =>
    obtain ⟨hmixes, _, rfl⟩ := o.override_eq_some h
    rw [if_pos ⟨hmixes, rfl⟩]
    exact ⟨rfl, rfl⟩
  | none =>
    split
    · rename_i hmixes
      -- nothing was to be changed, or nothing had been asked for
      obtain hsame | hgiven := o.override_eq_none.mp h hmixes.1
      · exact hsame
      · show o.clamped .waitQueries = o.clamped .maxSize
        by_contra hother
        have husual : o.clamped .waitQueries = Field.waitQueries.bounds.usual := by
          unfold clamped
          rw [o.wanted_usual .waitQueries hgiven]
          exact Bounds.clamp_of_admits Field.waitQueries.usual_admitted
        refine told ⟨hmixes.1, hgiven, fun hsize => hother ?_⟩
        rw [← settings_maxSize, hsize]
        exact husual
    · rfl

theorem changes_chain (f : Field) (told : ¬ (f = .waitQueries ∧ o.Unsaid)) :
    Adjustment.Chain (o.wanted f) (o.changes f) (o.settings.number f) := by
  rw [changes_eq]
  refine (f.fault_chain (o.wanted f)).append ?_
  by_cases hf : f = .waitQueries
  · rw [if_pos hf, hf]
    exact o.override_chain fun h => told ⟨hf, h⟩
  · rw [if_neg hf, settings_number, if_neg fun h => hf h.2]
    rfl

theorem changes_unsaid (unsaid : o.Unsaid) : o.changes .waitQueries = [] := by
  obtain ⟨_, hgiven, _⟩ := unsaid
  have hfault : Field.waitQueries.fault (o.wanted .waitQueries) = none := by
    rw [o.wanted_usual .waitQueries hgiven]
    exact Field.fault_eq_none.mpr Field.waitQueries.usual_admitted
  rw [changes_eq, hfault, o.override_eq_none.mpr fun _ => .inr hgiven]
  rfl

end Options

/-- Sound settings ask for themselves, and nothing is changed. -/
theorem Settings.resolve_toOptions {s : Settings}
    (admitted : ∀ f : Field, f.bounds.Admits (s.number f))
    (mixed : s.strategy = .indiscriminate → s.waitQueries = s.maxSize) :
    s.toOptions.resolve = (s, []) := by
  have hwanted : ∀ f : Field, s.toOptions.wanted f = s.number f := fun f => by cases f <;> rfl
  have hclamped : ∀ f : Field, s.toOptions.clamped f = s.number f := fun f => by
    unfold Options.clamped
    rw [hwanted]
    exact Bounds.clamp_of_admits (admitted f)
  refine Prod.ext (Settings.ext_number ?_ ?_ fun f => ?_) (List.eq_nil_iff_forall_not_mem.mpr ?_)
  · rw [Options.resolve_eq]
    rfl
  · rw [Options.resolve_eq]
    rfl
  · refine (s.toOptions.settings_number f).trans ?_
    rw [hclamped, hclamped]
    split
    · rename_i h
      rw [h.2]
      exact (mixed h.1).symm
    · rfl
  · intro a ha
    obtain ⟨f, hf⟩ | ho := s.toOptions.mem_report.mp ha
    · rw [hwanted, Field.fault_eq_none.mpr (admitted f)] at hf
      cases hf
    · obtain ⟨hmixes, hother, _⟩ := s.toOptions.override_eq_some ho
      rw [hclamped, hclamped] at hother
      exact hother (mixed hmixes)

/-- **Every change is accounted for.**  Settings have the strategy and the style asked for, and
numbers within their bounds.  A number is the one asked for, or the default, brought into its
bounds; only who batches indiscriminately waits for as many requests as fit one batch.  The changes
told of a number lead from the one asked for, or the default, to the one in the settings, each from
where the one before has come to, with one exception: when the default of `wait.queries` gives way
to the size of a batch, nothing is told.  Every change that is told makes a difference, and its
reason is the true one.  Who asks for the settings gets them, and is told nothing. -/
theorem Options.resolve_accounted (o : Options) :
    (o.settings.strategy = o.strategy ∧ o.settings.style = o.style) ∧
    (∀ f : Field, f.bounds.low ≤ o.settings.number f ∧ o.settings.number f ≤ f.bounds.high) ∧
    (∀ f : Field, o.settings.number f =
      if o.strategy = .indiscriminate ∧ f = .waitQueries then o.settings.maxSize
      else max f.bounds.low (min (o.wanted f) f.bounds.high)) ∧
    (∀ f : Field, ¬ (f = .waitQueries ∧ o.Unsaid) →
      Adjustment.Chain (o.wanted f) (o.changes f) (o.settings.number f)) ∧
    (o.Unsaid → o.changes .waitQueries = []) ∧
    (∀ a ∈ o.resolve.2, a.applied ≠ a.requested ∧ a.Justified o) ∧
    o.settings.toOptions.resolve = (o.settings, []) := by
  have hkept : o.settings.strategy = o.strategy ∧ o.settings.style = o.style := by
    unfold settings
    rw [resolve_eq]
    exact ⟨rfl, rfl⟩
  refine ⟨hkept, o.settings_admitted, fun f => ?_, o.changes_chain, o.changes_unsaid,
    fun a ha => ?_, Settings.resolve_toOptions o.settings_admitted fun hmixes => ?_⟩
  · rw [settings_number, settings_maxSize]
    rfl
  · obtain ⟨f, hf⟩ | ho := o.mem_report.mp ha
    · exact Field.fault_justified hf o
    · exact o.override_justified ho
  · exact o.waitQueries_forced (hkept.1.symm.trans hmixes)

/-- one number clamped and then overridden, and a default overridden in silence -/
theorem Options.resolve_accounted_twice :
    let o : Options :=
      { strategy := .indiscriminate, maxSize := some 1, wait := { queries := some 500 } }
    let silent : Options := { strategy := .indiscriminate, maxSize := some 7 }
    let forced : Adjustment := ⟨.waitQueries, 200, 2, .forcedByStrategy⟩
    o.settings = ⟨.indiscriminate, .array, 2, 2, 20⟩ ∧
      (¬ (Field.waitQueries = .waitQueries ∧ o.Unsaid) ∧
        o.changes .waitQueries = [⟨.waitQueries, 500, 200, .aboveMaximum⟩, forced] ∧
        Adjustment.Chain 500 (o.changes .waitQueries) 2) ∧
      (forced ∈ o.resolve.2 ∧ forced.applied ≠ forced.requested ∧ forced.Justified o) ∧
      silent.Unsaid ∧ silent.changes .waitQueries = [] := by
  intro o silent forced
  obtain ⟨_, _, _, hchain, _, hreason, _⟩ := resolve_accounted o
  obtain ⟨_, _, _, _, hsilent, _⟩ := resolve_accounted silent
  have htold : ¬ (Field.waitQueries = .waitQueries ∧ o.Unsaid) := fun h => by cases h.2.2.1
  have hforced : forced ∈ o.resolve.2 := by decide
  have hunsaid : silent.Unsaid := ⟨rfl, rfl, by decide⟩
  exact ⟨rfl, ⟨htold, rfl, hchain .waitQueries htold⟩, ⟨hforced, hreason forced hforced⟩, hunsaid,
    hsilent hunsaid⟩

end Coalesce
