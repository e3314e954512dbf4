import Coalesce.Options.Modes
import Coalesce.Proofs.Gateway.Build
import Coalesce.Proofs.Options.Report

/-!
# Strict and lenient options

* `Options.outOfRange_eq`       the clamps of all numbers asked for, field by field;
* `Options.outOfRange_fields`   no field is listed twice;
* `Options.outOfRange_eq_nil`   there are none just if all numbers asked for are within bounds;
* `Options.strict_eq_ok`, `Options.strict_eq_error`
                                what strict options come to;
* `Options.strict_agrees`       so strict options are refused just for what lenient ones clamp, and
                                come to the same settings otherwise.

What a strategy overrides is not listed, but the number overridden may be outside its bounds: it is
listed for that, as it is clamped before it gives way.
-/

namespace Coalesce

/-! ## numbers outside their bounds -/

namespace Options

variable {o : Options}

/-- A number is at fault only if it was asked for. -/
theorem fault_wanted (o : Options) (f : Field) :
    f.fault (o.wanted f) = (o.given f).bind f.fault := by
  cases h : o.given f with
  | none =>
    rw [o.wanted_usual f h]
    exact Field.fault_eq_none.mpr f.usual_admitted
  | some n =>
    unfold wanted
    rw [h]
    rfl

theorem outOfRange_eq (o : Options) :
    o.outOfRange = Field.all.flatMap fun f => ((o.given f).bind f.fault).toList := by
  have hfaults : ∀ a ∈ Field.all.flatMap (fun f => (f.fault (o.wanted f)).toList),
      a.isOutOfRange = true := by
    intro a ha
    obtain ⟨f, _, hf⟩ := List.mem_flatMap.mp ha
    obtain ⟨_, rfl⟩ | ⟨_, rfl⟩ := Field.fault_eq_some (Option.mem_toList.mp hf) <;> rfl
  have hoverride : ∀ a ∈ o.override.toList, ¬ a.isOutOfRange = true := by
    intro a ha
    obtain ⟨_, _, rfl⟩ := o.override_eq_some (Option.mem_toList.mp ha)
    exact Bool.false_ne_true
  unfold outOfRange
  rw [resolve_eq, List.filter_append, List.filter_eq_self.mpr hfaults,
    List.filter_eq_nil_iff.mpr hoverride, List.append_nil]
  simp only [fault_wanted]

theorem mem_outOfRange {a : Adjustment} : a ∈ o.outOfRange ↔
    ∃ (f : Field) (n : Nat), o.given f = some n ∧ f.fault n = some a := by
  rw [outOfRange_eq, List.mem_flatMap]
  simp only [Option.mem_toList, Option.bind_eq_some_iff, Field.mem_all, true_and]

theorem outOfRange_eq_nil : o.outOfRange = [] ↔
    ∀ (f : Field) (n : Nat), o.given f = some n → f.bounds.Admits n := by
  rw [List.eq_nil_iff_forall_not_mem]
  refine ⟨fun h f n hn => ?_, fun h a ha => ?_⟩
  · cases hfault : f.fault n with
    | none => exact Field.fault_eq_none.mp hfault
    | some a => exact absurd (mem_outOfRange.mpr ⟨f, n, hn, hfault⟩) (h a)
  · obtain ⟨f, n, hn, hfault⟩ := mem_outOfRange.mp ha
    rw [Field.fault_eq_none.mpr (h f n hn)] at hfault
    cases hfault

/-- Each field is listed once, in the order of all fields. -/
theorem outOfRange_fields (o : Options) :
    List.Sublist (o.outOfRange.map (·.field)) Field.all := by
  rw [outOfRange_eq]
  generalize Field.all = fields
  induction fields with
  | nil => exact .slnil
  | cons f fields ih =>
    rw [List.flatMap_cons]
    cases h : (o.given f).bind f.fault with
    | none => exact ih.cons f
    | some a =>
      obtain ⟨n, _, hn⟩ := Option.bind_eq_some_iff.mp h
      rw [← Field.fault_field hn]
      exact ih.cons_cons a.field

end Options

/-! ## both modes -/

namespace Options

variable {o : Options}

theorem strict_eq_ok {s : Settings} :
    o.strict = .ok s ↔ o.outOfRange = [] ∧ s = o.settings := by
  unfold strict resolveStrict
  cases h : o.outOfRange with
  | nil => simp [eq_comm]
  | cons a rest => simp

theorem strict_eq_error {cause : Error} :
    o.strict = .error cause ↔
      o.outOfRange ≠ [] ∧ cause = .configuration (.outOfRange none o.outOfRange) := by
  unfold strict resolveStrict
  cases h : o.outOfRange with
  | nil => simp
  | cons a rest => simp [eq_comm]

end Options

theorem Config.resolveBatching_lenient (c : Config) (t : TargetConfig) :
    resolveBatching { c with strict := false } t = .ok (t.batching.map Options.settings) := by
  unfold resolveBatching
  cases t.batching <;> rfl

/-- **Strict and lenient options agree.**  Strict options come to settings just if every number
asked for lies within its bounds, even one that the strategy overrides, and the settings are then
those of lenient options.  Otherwise they are refused, and the details of the error list the changes
out of range as the report does, in its order: these are all numbers asked for outside their bounds,
each of them once, and lenient options give notice of exactly these.  So a target of a strict
configuration that has settings at all has the settings that it would have in a lenient one. -/
theorem Options.strict_agrees (o : Options) :
    ((∃ s, o.strict = .ok s) ↔ ∀ (f : Field) (n : Nat), o.given f = some n →
      f.bounds.low ≤ n ∧ n ≤ f.bounds.high) ∧
    (∀ s, o.strict = .ok s → s = o.lenient.2) ∧
    (∀ cause, o.strict = .error cause → ∃ rejected : List Adjustment,
      cause.context?.bind (·.details)
        = some (String.intercalate "; " (rejected.map Adjustment.describe)) ∧
      rejected = o.resolve.2.filter (·.isOutOfRange) ∧
      (∀ a, a ∈ rejected ↔ ∃ (f : Field) (n : Nat), o.given f = some n ∧ f.fault n = some a) ∧
      (rejected.map (·.field)).Nodup ∧
      o.lenient.1 = rejected.map .clamped) ∧
    ∀ (c : Config) (t : TargetConfig) (settings : Option Settings),
      Config.resolveBatching { c with strict := true } t = .ok settings →
        Config.resolveBatching { c with strict := false } t = .ok settings := by
  refine ⟨⟨fun ⟨s, hs⟩ => ?_, fun h => ?_⟩, fun s hs => ?_, fun cause hcause => ?_,
    fun c t settings h => ?_⟩
  · exact outOfRange_eq_nil.mp (strict_eq_ok.mp hs).1
  · exact ⟨o.settings, strict_eq_ok.mpr ⟨outOfRange_eq_nil.mpr h, rfl⟩⟩
  · exact (strict_eq_ok.mp hs).2
  · obtain ⟨_, rfl⟩ := strict_eq_error.mp hcause
    exact ⟨o.outOfRange, rfl, rfl, fun a => mem_outOfRange,
      o.outOfRange_fields.nodup (by decide), rfl⟩
  · rw [Config.resolveBatching_lenient, Config.resolveBatching_ok h]

/-- three numbers out of range, of which one would be overridden as well, and one overridden that is
within its bounds -/
theorem Options.strict_agrees_listed :
    let refused : Options :=
      { strategy := .indiscriminate, maxSize := some 1, wait := ⟨some 500, some 101⟩ }
    let forced : Options :=
      { strategy := .indiscriminate, maxSize := some 50, wait := { queries := some 5 } }
    let settings : Settings := ⟨.indiscriminate, .array, 50, 50, 20⟩
    let c : Config := {}
    let t : TargetConfig :=
      { name := "accounts", url := "http://accounts", batching := some forced }
    (∃ cause, refused.strict = .error cause ∧ cause.context?.bind (·.details)
      = some ("max_size: 1 -> 2 (below minimum); wait.queries: 500 -> 200 (above maximum); "
          ++ "wait.millis: 101 -> 100 (above maximum)")) ∧
      (forced.strict = .ok settings ∧ settings = forced.lenient.2) ∧
      Config.resolveBatching { c with strict := true } t = .ok (some settings) ∧
      Config.resolveBatching { c with strict := false } t = .ok (some settings) := by
  intro refused forced settings c t
  obtain ⟨_, _, herror, _⟩ := strict_agrees refused
  obtain ⟨_, hsettings, _, hconfig⟩ := strict_agrees forced
  have hrefused : refused.strict = .error (.configuration (.outOfRange none refused.outOfRange)) :=
    rfl
  obtain ⟨rejected, hdetails, rfl, _⟩ := herror _ hrefused
  have htarget : Config.resolveBatching { c with strict := true } t = .ok (some settings) := rfl
  refine ⟨⟨_, hrefused, hdetails.trans ?_⟩, ⟨rfl, hsettings settings rfl⟩, htarget,
    hconfig c t _ htarget⟩
  decide

end Coalesce
