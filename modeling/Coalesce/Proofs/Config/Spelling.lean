import Coalesce.Proofs.Json.Records
import Mathlib.Data.List.Forall2

/-!
# Other spellings of a configuration

* `Json.keyAliases`, `Json.strategyAliases`
                              the other names of members, and of strategies;
* `Json.Respelled`            a value in another spelling: some members go by another name, or are
                              left out where they are null, and some strategies go by another name;
* `MembersRespelled.filter`   what goes by some names is respelled by itself, if the names are all
                              the spellings of theirs;
* `Json.filled_respelled`     so a slot that goes by all spellings of a name holds what it would
                              hold without the respelling, or nothing instead of null.

A value is respelled at every depth, and each member, or item, in its own way.
-/

namespace Coalesce.Json

open Decode

def keyAliases : List (String × String) :=
  [("deadline_padding_ms", "deadlinePaddingMs"), ("strict_batching", "strictBatching"),
    ("timeout_ms", "timeoutMs"), ("max_size", "maxSize")]

def strategyAliases : List (String × String) :=
  [("by-inbound-request", "byInboundRequest"), ("by-inbound-request", "by_inbound_request"),
    ("by-upstream-headers", "byUpstreamHeaders"), ("by-upstream-headers", "by_upstream_headers")]

/-- What may stand under a name instead of a value. -/
inductive ValueRespelled (R : Json → Json → Prop) : String → Json → Json → Prop where
  | value {name : String} {v w : Json} (h : R v w) : ValueRespelled R name v w
  | strategy {a b : String} (other : (a, b) ∈ strategyAliases) :
      ValueRespelled R "strategy" (.string a) (.string b)

inductive MembersRespelled (R : Json → Json → Prop) :
    List (String × Json) → List (String × Json) → Prop where
  | nil : MembersRespelled R [] []
  | dropped {ms ns : List (String × Json)} (name : String) (rest : MembersRespelled R ms ns) :
      MembersRespelled R ((name, .null) :: ms) ns
  | kept {ms ns : List (String × Json)} {name name' : String} {v w : Json}
      (key : name' = name ∨ (name, name') ∈ keyAliases) (value : ValueRespelled R name v w)
      (rest : MembersRespelled R ms ns) : MembersRespelled R ((name, v) :: ms) ((name', w) :: ns)

inductive Respelled : Json → Json → Prop where
  | same (v : Json) : Respelled v v
  | array {vs ws : List Json} (items : List.Forall₂ Respelled vs ws) :
      Respelled (.array vs) (.array ws)
  | object {ms ns : List (String × Json)} (members : MembersRespelled Respelled ms ns) :
      Respelled (.object ms) (.ofMembers ns)

/-! ## what a value is respelled to -/

namespace Respelled

variable {w : Json}

theorem of_null (h : Respelled .null w) : w = .null := by
  cases h
  rfl

theorem of_bool {b : Bool} (h : Respelled (.bool b) w) : w = .bool b := by
  cases h
  rfl

theorem of_number {n : Number} (h : Respelled (.number n) w) : w = .number n := by
  cases h
  rfl

theorem of_string {s : String} (h : Respelled (.string s) w) : w = .string s := by
  cases h
  rfl

theorem of_array {vs : List Json} (h : Respelled (.array vs) w) :
    ∃ ws, w = .array ws ∧ List.Forall₂ Respelled vs ws := by
  cases h with
  | same => exact ⟨vs, rfl, List.forall₂_same.mpr fun v _ => .same v⟩
  | array items => exact ⟨_, rfl, items⟩

theorem of_object {ms : List (String × Json)} (h : Respelled (.ofMembers ms) w) :
    ∃ ns, w = .ofMembers ns ∧ MembersRespelled Respelled (Members.ofList ms) ns := by
  cases h with
  | same =>
    refine ⟨Members.ofList ms, ?_, ?_⟩
    · unfold ofMembers
      rw [Members.ofList_rising (Members.rising_ofList ms)]
    · induction Members.ofList ms with
      | nil => exact .nil
      | cons m rest ih => exact .kept (.inl rfl) (.value (.same m.2)) ih
  | object members => exact ⟨_, rfl, members⟩

end Respelled

/-! ## the members of some names -/

variable {R : Json → Json → Prop} {ms ns : List (String × Json)}

/-- The names are all the spellings of theirs. -/
def Closed (names : List String) : Prop := ∀ a ∈ keyAliases, a.1 ∈ names ↔ a.2 ∈ names

instance (names : List String) : Decidable (Closed names) :=
  inferInstanceAs (Decidable (∀ a ∈ keyAliases, _))

namespace MembersRespelled

theorem filter (h : MembersRespelled R ms ns) {names : List String} (closed : Closed names) :
    MembersRespelled R (ms.filter fun m => m.1 ∈ names) (ns.filter fun m => m.1 ∈ names) := by
  induction h with
  | nil => exact .nil
  | @dropped ms ns name _ ih =>
    by_cases hname : name ∈ names
    · rw [List.filter_cons_of_pos (by simpa using hname)]
      exact .dropped name ih
    · rw [List.filter_cons_of_neg (by simpa using hname)]
      exact ih
  | @kept ms ns name name' v w key value _ ih =>
    have hboth : name ∈ names ↔ name' ∈ names := by
      rcases key with rfl | halias
      · exact Iff.rfl
      · exact closed _ halias
    by_cases hname : name ∈ names
    · rw [List.filter_cons_of_pos (by simpa using hname),
        List.filter_cons_of_pos (by simpa using hboth.mp hname)]
      exact .kept key value ih
    · rw [List.filter_cons_of_neg (by simpa using hname),
        List.filter_cons_of_neg (by simpa using mt hboth.mpr hname)]
      exact ih

theorem of_one {name : String} {v : Json} (h : MembersRespelled R [(name, v)] ns) :
    ns = [] ∧ v = .null ∨ ∃ name' w, ns = [(name', w)] ∧ ValueRespelled R name v w := by
  cases h with
  | dropped name rest =>
    cases rest
    exact .inl ⟨rfl, rfl⟩
  | kept key value rest =>
    cases rest
    exact .inr ⟨_, _, rfl, value⟩

end MembersRespelled

/-! ## slots -/

theorem ValueRespelled.of_ne {name : String} {v w : Json} (h : ValueRespelled R name v w)
    (other : name ≠ "strategy") : R v w := by
  cases h with
  | value h => exact h
  | strategy _ => exact absurd rfl other

section
variable {σ : Type} (F : FieldSlot σ Document) {name : String} {v : Json}
  (closed : Closed F.names) (written : (ms.filter fun m => m.1 ∈ F.names) = [(name, v)])
  (respelled : MembersRespelled Respelled (Members.ofList ms) ns)
include closed written respelled

/-- What a slot holds behind respelled members. -/
theorem filled_respelled {a : F.Value}
    (reads : ∀ w, ValueRespelled Respelled name v w → F.read (document w) = .ok a) :
    ∃ x, F.Filled (named (Members.ofList ns)) none x ∧ (x = some a ∨ x = none ∧ v = .null) := by
  have hms : (Members.ofList ms).filter (fun m => m.1 ∈ F.names) = [(name, v)] := by
    rw [Members.filter_ofList ms fun n => n ∈ F.names, written]
    rfl
  have hns := respelled.filter closed
  rw [hms] at hns
  obtain ⟨hnone, hnull⟩ | ⟨name', w, hone, hvalue⟩ := hns.of_one
  · refine ⟨none, filled_iff.mpr (.inl ⟨?_, rfl⟩), .inr ⟨rfl, hnull⟩⟩
    rw [Members.filter_ofList ns fun n => n ∈ F.names, hnone]
    rfl
  · refine ⟨some a, filled_iff.mpr (.inr ⟨(name', w), a, ?_, reads w hvalue, rfl⟩), .inl rfl⟩
    rw [Members.filter_ofList ns fun n => n ∈ F.names, hone]
    rfl

/-- What is not null is not left out. -/
theorem filled_of_some {a : F.Value} (stands : v ≠ .null)
    (reads : ∀ w, ValueRespelled Respelled name v w → F.read (document w) = .ok a) :
    F.Filled (named (Members.ofList ns)) none (some a) := by
  obtain ⟨x, hx, rfl | ⟨_, hnull⟩⟩ := filled_respelled F closed written respelled reads
  · exact hx
  · exact absurd hnull stands

end

end Coalesce.Json
