import Coalesce.Config.Basic
import Mathlib.Data.List.Induction
import Mathlib.Data.List.Nodup

/-!
# Which configurations are valid

* `Config.Sound`      targets that may stand together in a configuration;
* `Config.Flaw`       what is wrong with a target behind others, and for which of its fields it is
                      told;
* `Config.Invalid`    the first thing that is wrong with a configuration;
* `Config.validate_eq_ok`, `Config.validate_eq_error`
                      so validation finds this, or nothing.

Names are looked at before addresses, target by target.
-/

namespace Coalesce.Config

structure Sound (urlFault : String → Option String) (ts : List TargetConfig) : Prop where
  named : ∀ t ∈ ts, Text.isBlank t.name = false
  distinct : (ts.map (·.name)).Nodup
  addressed : ∀ t ∈ ts, urlFault t.url = none

inductive Flaw (urlFault : String → Option String) (before : List TargetConfig)
    (t : TargetConfig) : String → ConfigurationError → Prop where
  | blank (h : Text.isBlank t.name = true) :
      Flaw urlFault before t "name" (.blankName before.length)
  | taken (named : Text.isBlank t.name = false) (h : t.name ∈ before.map (·.name)) :
      Flaw urlFault before t "name" (.duplicateName before.length t.name)
  | address (named : Text.isBlank t.name = false) (new : t.name ∉ before.map (·.name))
      {reason : String} (h : urlFault t.url = some reason) :
      Flaw urlFault before t "url" (.badUrl before.length t.name reason)

inductive Invalid (urlFault : String → Option String) (c : Config) : ConfigurationError → Prop where
  | padding (negative : c.padding < 0) : Invalid urlFault c .negativePadding
  | target (reserve : 0 ≤ c.padding) {before after : List TargetConfig} {t : TargetConfig}
      (split : c.targets = before ++ t :: after) (sound : Sound urlFault before) {place : String}
      {cause : ConfigurationError} (flaw : Flaw urlFault before t place cause) :
      Invalid urlFault c cause

variable {urlFault : String → Option String} {before front rest ts : List TargetConfig}
  {t : TargetConfig} {place : String} {cause : ConfigurationError}

/-- The error names the field, by the position of the target. -/
theorem Flaw.field (h : Flaw urlFault before t place cause) :
    cause.context.field = some ("upstreams[" ++ toString before.length ++ "]." ++ place) := by
  cases h <;> rfl

/-! ## targets one by one -/

theorem sound_nil : Sound urlFault [] := ⟨nofun, List.nodup_nil, nofun⟩

theorem sound_snoc_iff : Sound urlFault (ts ++ [t]) ↔ Sound urlFault ts ∧
    Text.isBlank t.name = false ∧ t.name ∉ ts.map (·.name) ∧ urlFault t.url = none := by
  have hdistinct : ((ts ++ [t]).map (·.name)).Nodup ↔
      (ts.map (·.name)).Nodup ∧ t.name ∉ ts.map (·.name) := by
    rw [List.map_append, List.map_singleton, List.nodup_append_comm]
    exact List.nodup_cons.trans and_comm
  constructor
  · rintro ⟨named, distinct, addressed⟩
    obtain ⟨hts, hnew⟩ := hdistinct.mp distinct
    obtain ⟨hnamed, ht⟩ := List.forall_mem_append.mp named
    obtain ⟨haddressed, hurl⟩ := List.forall_mem_append.mp addressed
    exact ⟨⟨hnamed, hts, haddressed⟩, ht t (List.mem_singleton_self t), hnew,
      hurl t (List.mem_singleton_self t)⟩
  · rintro ⟨h, named, new, addressed⟩
    exact ⟨List.forall_mem_append.mpr ⟨h.named, List.forall_mem_singleton.mpr named⟩,
      hdistinct.mpr ⟨h.distinct, new⟩,
      List.forall_mem_append.mpr ⟨h.addressed, List.forall_mem_singleton.mpr addressed⟩⟩

theorem sound_append_left (h : Sound urlFault (ts ++ front)) : Sound urlFault ts := by
  refine ⟨fun t ht => h.named t (List.mem_append_left front ht), ?_,
    fun t ht => h.addressed t (List.mem_append_left front ht)⟩
  have hdistinct := h.distinct
  rw [List.map_append] at hdistinct
  exact hdistinct.sublist (List.sublist_append_left _ _)

theorem flaw_of_not_sound (h : Sound urlFault ts) (unsound : ¬ Sound urlFault (ts ++ [t])) :
    ∃ place cause, Flaw urlFault ts t place cause := by
  cases hblank : Text.isBlank t.name with
  | true => exact ⟨_, _, .blank hblank⟩
  | false =>
    by_cases hname : t.name ∈ ts.map (·.name)
    · exact ⟨_, _, .taken hblank hname⟩
    · cases hurl : urlFault t.url with
      | some reason => exact ⟨_, _, .address hblank hname hurl⟩
      | none => exact absurd (sound_snoc_iff.mpr ⟨h, hblank, hname, hurl⟩) unsound

/-- Targets are sound, or one of them is the first with a flaw. -/
theorem sound_or_flaw (ts : List TargetConfig) : Sound urlFault ts ∨
    ∃ before t after place cause, ts = before ++ t :: after ∧ Sound urlFault before ∧
      Flaw urlFault before t place cause := by
  induction ts using List.reverseRecOn with
  | nil => exact .inl sound_nil
  | append_singleton ts t ih =>
    obtain hts | ⟨before, t', after, place, cause, rfl, hbefore, hflaw⟩ := ih
    · by_cases h : Sound urlFault (ts ++ [t])
      · exact .inl h
      · obtain ⟨place, cause, hflaw⟩ := flaw_of_not_sound hts h
        exact .inr ⟨ts, t, [], place, cause, rfl, hts, hflaw⟩
    · refine .inr ⟨before, t', after ++ [t], place, cause, ?_, hbefore, hflaw⟩
      rw [List.append_assoc, List.cons_append]

/-! ## validation -/

/-- the names of targets, the last one first -/
def namesBack (ts : List TargetConfig) : List String := (ts.map (·.name)).reverse

theorem namesBack_snoc (ts : List TargetConfig) (t : TargetConfig) :
    namesBack (ts ++ [t]) = t.name :: namesBack ts := by
  unfold namesBack
  rw [List.map_append, List.reverse_append]
  rfl

theorem mem_namesBack {name : String} : name ∈ namesBack ts ↔ name ∈ ts.map (·.name) :=
  List.mem_reverse

/-- Sound targets are passed. -/
theorem validateTargets_sound (done : List TargetConfig) (h : Sound urlFault (done ++ front)) :
    validateTargets urlFault done.length (namesBack done) (front ++ rest)
      = validateTargets urlFault (done ++ front).length (namesBack (done ++ front)) rest := by
  induction front generalizing done with
  | nil => rw [List.append_nil, List.nil_append]
  | cons t front ih =>
    rw [List.append_cons] at h
    obtain ⟨_, hnamed, hnew, hurl⟩ := sound_snoc_iff.mp (sound_append_left h)
    have hnext := ih (done ++ [t]) h
    rw [namesBack_snoc, List.length_append, ← List.append_cons] at hnext
    rw [← hnext, List.cons_append]
    conv_lhs => unfold validateTargets
    rw [hnamed, if_neg Bool.false_ne_true, if_neg (mt mem_namesBack.mp hnew), hurl]
    rfl

/-- Validation stops at a flaw. -/
theorem validateTargets_flaw (h : Flaw urlFault before t place cause) :
    validateTargets urlFault before.length (namesBack before) (t :: rest)
      = .error (.configuration cause) := by
  unfold validateTargets
  cases h with
  | blank h => rw [if_pos h]
  | taken named h => rw [named, if_neg Bool.false_ne_true, if_pos (mem_namesBack.mpr h)]
  | address named new h =>
    rw [named, if_neg Bool.false_ne_true, if_neg (mt mem_namesBack.mp new), h]

variable {c : Config}

theorem validate_of_sound (reserve : 0 ≤ c.padding) (sound : Sound urlFault c.targets) :
    c.validate urlFault = .ok () := by
  unfold validate
  rw [if_neg (Int.not_lt.mpr reserve), ← c.targets.append_nil]
  exact validateTargets_sound [] sound

theorem validate_of_invalid (h : Invalid urlFault c cause) :
    c.validate urlFault = .error (.configuration cause) := by
  unfold validate
  cases h with
  | padding negative => rw [if_pos negative]
  | target reserve split sound flaw =>
    rw [if_neg (Int.not_lt.mpr reserve), split]
    exact (validateTargets_sound [] sound).trans (validateTargets_flaw flaw)

theorem sound_or_invalid (urlFault : String → Option String) (c : Config) :
    0 ≤ c.padding ∧ Sound urlFault c.targets ∨ ∃ cause, Invalid urlFault c cause := by
  by_cases negative : c.padding < 0
  · exact .inr ⟨_, .padding negative⟩
  · have reserve : 0 ≤ c.padding := Int.not_lt.mp negative
    obtain hsound | ⟨before, t, after, place, cause, split, sound, flaw⟩ := sound_or_flaw c.targets
    · exact .inl ⟨reserve, hsound⟩
    · exact .inr ⟨cause, .target reserve split sound flaw⟩

theorem validate_eq_ok :
    c.validate urlFault = .ok () ↔ 0 ≤ c.padding ∧ Sound urlFault c.targets := by
  refine ⟨fun h => ?_, fun ⟨reserve, sound⟩ => validate_of_sound reserve sound⟩
  obtain hsound | ⟨cause, hinvalid⟩ := sound_or_invalid urlFault c
  · exact hsound
  · rw [validate_of_invalid hinvalid] at h
    cases h

theorem validate_eq_error {e : Error} : c.validate urlFault = .error e ↔
    ∃ cause, Invalid urlFault c cause ∧ e = .configuration cause := by
  constructor
  · intro h
    obtain ⟨reserve, sound⟩ | ⟨cause, hinvalid⟩ := sound_or_invalid urlFault c
    · rw [validate_of_sound reserve sound] at h
      cases h
    · rw [validate_of_invalid hinvalid] at h
      cases h
      exact ⟨cause, hinvalid, rfl⟩
  · rintro ⟨cause, hinvalid, rfl⟩
    exact validate_of_invalid hinvalid

end Coalesce.Config
