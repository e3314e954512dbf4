import Coalesce.Json.Document
import Coalesce.Proofs.Json.Members

/-!
# Values as documents

* `Json.Canonical`             the members of every object stand in order, each name once;
* `Json.value?_document`       a canonical value is the value of its document, as long as so many
                               levels are allowed;
* `Document.canonical_value?`  the value of a document is canonical, whatever the document;
* `Json.canonical_ofText?`     and so is the value of a text.
-/

namespace Coalesce.Json

inductive Canonical : Json → Prop where
  | null : Canonical .null
  | bool (b : Bool) : Canonical (.bool b)
  | number (n : Number) : Canonical (.number n)
  | string (s : String) : Canonical (.string s)
  | array {items : List Json} (all : ∀ v ∈ items, Canonical v) : Canonical (.array items)
  | object {members : List (String × Json)} (rising : Members.Rising members)
      (all : ∀ m ∈ members, Canonical m.2) : Canonical (.object members)

/-! ## levels -/

theorem levels_le_itemLevels {items : List Json} {v : Json} (h : v ∈ items) :
    v.levels ≤ itemLevels items := by
  induction items with
  | nil => exact absurd h List.not_mem_nil
  | cons first rest ih =>
    unfold itemLevels
    rcases List.mem_cons.mp h with rfl | h
    · exact Nat.le_max_left ..
    · exact Nat.le_trans (ih h) (Nat.le_max_right ..)

theorem levels_le_memberLevels {members : List (String × Json)} {m : String × Json}
    (h : m ∈ members) : m.2.levels ≤ memberLevels members := by
  induction members with
  | nil => exact absurd h List.not_mem_nil
  | cons first rest ih =>
    unfold memberLevels
    rcases List.mem_cons.mp h with rfl | h
    · exact Nat.le_max_left ..
    · exact Nat.le_trans (ih h) (Nat.le_max_right ..)

/-! ## there and back -/

namespace Document

theorem values?_documents {n : Nat} {items : List Json}
    (all : ∀ v ∈ items, (document v).value? n = some v) :
    values? n (documents items) = some items := by
  induction items with
  | nil => rfl
  | cons v rest ih =>
    unfold documents values?
    rw [all v List.mem_cons_self, ih fun w hw => all w (List.mem_cons_of_mem _ hw)]

theorem memberValues?_memberDocuments {n : Nat} {members : List (String × Json)}
    (all : ∀ m ∈ members, (document m.2).value? n = some m.2) :
    memberValues? n (memberDocuments members) = some members := by
  induction members with
  | nil => rfl
  | cons m rest ih =>
    unfold memberDocuments memberValues?
    rw [all m List.mem_cons_self, ih fun x hx => all x (List.mem_cons_of_mem _ hx)]

end Document

theorem value?_document {v : Json} (h : v.Canonical) {n : Nat} (fits : v.levels ≤ n) :
    (document v).value? n = some v := by
  induction h generalizing n with
  | null => rfl
  | bool b => rfl
  | number n => rfl
  | string s => rfl
  | @array items _ ih =>
    unfold levels at fits
    obtain ⟨n, rfl⟩ := Nat.exists_eq_add_of_le' (Nat.le_of_add_left_le fits)
    have hall : ∀ v ∈ items, (document v).value? n = some v := fun v hv =>
      ih v hv (Nat.le_trans (levels_le_itemLevels hv) (Nat.le_of_add_le_add_right fits))
    show (Document.values? n (documents items)).map Json.array = _
    rw [Document.values?_documents hall]
    rfl
  | @object members rising _ ih =>
    unfold levels at fits
    obtain ⟨n, rfl⟩ := Nat.exists_eq_add_of_le' (Nat.le_of_add_left_le fits)
    have hall : ∀ m ∈ members, (document m.2).value? n = some m.2 := fun m hm =>
      ih m hm (Nat.le_trans (levels_le_memberLevels hm) (Nat.le_of_add_le_add_right fits))
    show (Document.memberValues? n (memberDocuments members)).map Json.ofMembers = _
    rw [Document.memberValues?_memberDocuments hall]
    show some (Json.object (Members.ofList members)) = _
    rw [Members.ofList_rising rising]

/-! ## what is read -/

theorem canonical_ofMembers {members : List (String × Json)}
    (all : ∀ m ∈ members, m.2.Canonical) : (ofMembers members).Canonical := by
  refine .object (Members.rising_ofList members) ?_
  induction members using List.reverseRecOn with
  | nil => exact fun m hm => absurd hm List.not_mem_nil
  | append_singleton members m ih =>
    rw [Members.ofList_snoc]
    intro x hx
    rcases Members.mem_insert hx with rfl | hx
    · exact all m (List.mem_append_right _ (List.mem_singleton_self _))
    · exact ih (fun y hy => all y (List.mem_append_left _ hy)) x hx

namespace Document

mutual

theorem canonical_value? {n : Nat} {d : Document} {v : Json} (h : d.value? n = some v) :
    v.Canonical := by
  cases d with
  | null => cases h; exact .null
  | bool b => cases h; exact .bool b
  | number x =>
    obtain ⟨x, _, rfl⟩ := Option.map_eq_some_iff.mp h
    exact .number x
  | string s =>
    obtain ⟨s, _, rfl⟩ := Option.map_eq_some_iff.mp h
    exact .string s
  | array items closed =>
    unfold value? at h
    split at h
    · cases h
    · split at h
      · obtain ⟨vs, hvs, rfl⟩ := Option.map_eq_some_iff.mp h
        exact .array (canonical_values? hvs)
      · cases h
  | object members closed =>
    unfold value? at h
    split at h
    · cases h
    · split at h
      · obtain ⟨ms, hms, rfl⟩ := Option.map_eq_some_iff.mp h
        exact canonical_ofMembers (canonical_memberValues? hms)
      · cases h
  | broken => cases h

theorem canonical_values? {n : Nat} {ds : List Document} {vs : List Json}
    (h : values? n ds = some vs) : ∀ v ∈ vs, v.Canonical := by
  cases ds with
  | nil => cases h; exact fun v hv => absurd hv List.not_mem_nil
  | cons d rest =>
    unfold values? at h
    split at h
    · rename_i hfirst hrest
      cases h
      exact List.forall_mem_cons.mpr ⟨canonical_value? hfirst, canonical_values? hrest⟩
    · cases h

theorem canonical_memberValues? {n : Nat} {ds : List (Key × Document)}
    {ms : List (String × Json)} (h : memberValues? n ds = some ms) :
    ∀ m ∈ ms, m.2.Canonical := by
  cases ds with
  | nil => cases h; exact fun m hm => absurd hm List.not_mem_nil
  | cons d rest =>
    unfold memberValues? at h
    split at h
    · rename_i hfirst hrest
      cases h
      exact List.forall_mem_cons.mpr ⟨canonical_value? hfirst, canonical_memberValues? hrest⟩
    · cases h

end

end Document

theorem canonical_ofText? {text : String} {v : Json} (h : ofText? text = some v) :
    v.Canonical := by
  unfold ofText? at h
  split at h
  · exact Document.canonical_value? h
  · cases h

end Coalesce.Json
