import Coalesce.Proofs.Decode.Records
import Coalesce.Proofs.Json.Values

/-!
# Records read from values

* `Json.named`            the members of an object, as they stand in its document;
* `Json.record_object`    a record is read from all members of an object;
* `Json.filled_iff`       what a slot holds behind the members of an object;
* `Json.unsaid_iff`, `Json.said_iff`
                          what is found in a slot whose member may be left out;
* `Json.optional_eq_ok`   null says that nothing is given, and everything else is read.
-/

namespace Coalesce.Json

open Decode

variable {σ α : Type}

def named (ms : List (String × Json)) : List (String × Document) :=
  ms.map fun m => (m.1, document m.2)

theorem namedMembers_memberDocuments (ms : List (String × Json)) :
    Document.namedMembers true (memberDocuments ms) = ⟨named ms, true⟩ := by
  induction ms with
  | nil => rfl
  | cons m rest ih =>
    unfold memberDocuments Document.namedMembers
    rw [ih]
    rfl

theorem record_object (name : String) (ms : List (String × Json)) :
    format.record name (document (.object ms)) = .ok (.named ⟨named ms, true⟩) :=
  congrArg (fun parts => Except.ok (Record.named parts)) (namedMembers_memberDocuments ms)

theorem said_named (F : FieldSlot σ Document) (ms : List (String × Json)) :
    F.said (named ms) = named (ms.filter fun m => m.1 ∈ F.names) := by
  unfold FieldSlot.said named
  rw [List.filter_map]
  rfl

theorem filled_iff {F : FieldSlot σ Document} {ms : List (String × Json)} {x : Option F.Value} :
    F.Filled (named ms) none x ↔
      (ms.filter fun m => m.1 ∈ F.names) = [] ∧ x = none ∨
        ∃ m v, (ms.filter fun m => m.1 ∈ F.names) = [m] ∧ F.read (document m.2) = .ok v ∧
          x = some v := by
  constructor
  · rintro (⟨nothing, same⟩ | ⟨d, one, _, v, read, filled⟩)
    · rw [said_named] at nothing
      exact .inl ⟨List.map_eq_nil_iff.mp nothing, same⟩
    · rw [said_named] at one
      obtain ⟨m, hm, rfl⟩ := List.map_eq_singleton_iff.mp one
      exact .inr ⟨m, v, hm, read, filled⟩
  · rintro (⟨nothing, same⟩ | ⟨m, v, one, read, filled⟩)
    · exact .unsaid (by rw [said_named, nothing]; rfl) same
    · exact .said (m.1, document m.2) (by rw [said_named, one]; rfl) rfl v read filled

/-- A slot that goes by one name only. -/
theorem filled_one_iff {F : FieldSlot σ Document} {name : String} (one : F.names = [name])
    {ms : List (String × Json)} {x : Option F.Value} :
    F.Filled (named ms) none x ↔
      (ms.filter fun m => m.1 = name) = [] ∧ x = none ∨
        ∃ v a, (ms.filter fun m => m.1 = name) = [(name, v)] ∧ F.read (document v) = .ok a ∧
          x = some a := by
  have hsame : (ms.filter fun m => m.1 ∈ F.names) = ms.filter fun m => m.1 = name :=
    List.filter_congr fun m _ => by rw [one, decide_eq_decide, List.mem_singleton]
  rw [filled_iff, hsame]
  refine or_congr_right ⟨?_, ?_⟩
  · rintro ⟨m, a, hm, read, filled⟩
    have hmem : m ∈ ms.filter fun m => m.1 = name := hm ▸ List.mem_singleton_self m
    have hname : m.1 = name := of_decide_eq_true (List.mem_filter.mp hmem).2
    exact ⟨m.2, a, hname ▸ hm, read, filled⟩
  · rintro ⟨v, a, hv, read, filled⟩
    exact ⟨(name, v), a, hv, read, filled⟩

section
variable {label name : String} {read : Document → Except Fault (Option α)}
  {kept : σ → Option (Option α)} {put : σ → Option (Option α) → σ} {ms : List (String × Json)}
  {found : Option α}

/-- Nothing is found where nothing is said. -/
theorem unsaid_iff (nothing : (ms.filter fun m => m.1 = name) = []) :
    (∃ x, FieldSlot.Filled ⟨label, [name], Option α, read, kept, put⟩ (named ms) none x ∧
      x.getD none = found) ↔ found = none := by
  constructor
  · rintro ⟨x, hx, rfl⟩
    rcases (filled_one_iff rfl).mp hx with ⟨_, rfl⟩ | ⟨_, _, hv, _⟩
    · rfl
    · rw [nothing] at hv
      cases hv
  · rintro rfl
    exact ⟨none, (filled_one_iff rfl).mpr (.inl ⟨nothing, rfl⟩), rfl⟩

/-- What is found is read from what is said. -/
theorem said_iff {v : Json} (one : (ms.filter fun m => m.1 = name) = [(name, v)]) :
    (∃ x, FieldSlot.Filled ⟨label, [name], Option α, read, kept, put⟩ (named ms) none x ∧
      x.getD none = found) ↔ read (document v) = .ok found := by
  constructor
  · rintro ⟨x, hx, rfl⟩
    rcases (filled_one_iff rfl).mp hx with ⟨hv, _⟩ | ⟨_, _, hw, hread, rfl⟩
    · rw [one] at hv
      cases hv
    · rw [one] at hw
      cases hw
      exact hread
  · intro hread
    exact ⟨some found, (filled_one_iff rfl).mpr (.inr ⟨v, found, one, hread, rfl⟩), rfl⟩

end

theorem optional_eq_ok {read : Document → Except Fault α} {v : Json} {x : Option α} :
    format.optional read (document v) = .ok x ↔
      v = .null ∧ x = none ∨ v ≠ .null ∧ ∃ a, read (document v) = .ok a ∧ x = some a := by
  have hsome : v ≠ .null → format.optional read (document v) = (read (document v)).map some := by
    intro hv
    cases v with
    | null => exact absurd rfl hv
    | bool _ => rfl
    | number _ => rfl
    | string _ => rfl
    | array _ => rfl
    | object _ => rfl
  by_cases hv : v = .null
  · subst hv
    constructor
    · intro h
      cases h
      exact .inl ⟨rfl, rfl⟩
    · rintro (⟨_, rfl⟩ | ⟨h, _⟩)
      · rfl
      · exact absurd rfl h
  · rw [hsome hv]
    cases hread : read (document v) with
    | error e =>
      constructor
      · intro h
        cases h
      · rintro (⟨h, _⟩ | ⟨_, _, h, _⟩)
        · exact absurd h hv
        · cases h
    | ok a =>
      constructor
      · intro h
        cases h
        exact .inr ⟨hv, a, rfl, rfl⟩
      · rintro (⟨h, _⟩ | ⟨_, _, h, rfl⟩)
        · exact absurd h hv
        · cases h
          rfl

theorem option_eq_some {d d' : Document} (h : format.option d = some d') : d' = d := by
  cases d with
  | null => cases h
  | _ => exact (Option.some.inj h).symm

theorem optional_eq_some {α : Type} {read : Document → Except Fault α} {d : Document} {a : α}
    (h : format.optional read d = .ok (some a)) : read d = .ok a := by
  unfold Format.optional at h
  split at h
  · cases h
  · rename_i d' hd
    rw [option_eq_some hd] at h
    cases hread : read d with
    | error e =>
      rw [hread] at h
      cases h
    | ok b =>
      rw [hread] at h
      cases h
      rfl

/-! ## scalars -/

def isNull : Json → Bool
  | .null => true
  | _ => false

theorem isNull_iff {v : Json} : v.isNull = true ↔ v = .null := by
  cases v with
  | null => exact ⟨fun _ => rfl, fun _ => rfl⟩
  | bool _ => exact ⟨nofun, nofun⟩
  | number _ => exact ⟨nofun, nofun⟩
  | string _ => exact ⟨nofun, nofun⟩
  | array _ => exact ⟨nofun, nofun⟩
  | object _ => exact ⟨nofun, nofun⟩

theorem string_eq_ok {v : Json} {s : String} :
    format.string (document v) = .ok s ↔ v = .string s := by
  cases v with
  | string t =>
    constructor
    · intro h
      cases h
      rfl
    · intro h
      cases h
      rfl
  | null => exact ⟨nofun, nofun⟩
  | bool _ => exact ⟨nofun, nofun⟩
  | number _ => exact ⟨nofun, nofun⟩
  | array _ => exact ⟨nofun, nofun⟩
  | object _ => exact ⟨nofun, nofun⟩

end Coalesce.Json
