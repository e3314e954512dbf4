import Coalesce.Request
import Coalesce.Proofs.Json.Records

/-!
# Requests on the wire

* `Request.Canonical`      what a request carries is canonical; `Request.canonical_readWithin` and
                           `Request.canonical_withBinding`: no other requests are ever made;
* `Request.settled`        extensions that are null are none;
* `Request.restrict`       what an object says about a request: a member with the query, and of the
                           others what is known and not null;
* `Request.ofJson?_eq_ok`  an object is read as a request just if it says what the request writes;
* `Request.wire_exact`     so requests go there and back, and are told apart by their values.

Reading is settled name by name: a name stands at most once in a canonical object.
-/

namespace Coalesce.Request

open Decode

/-! ## slots -/

def slots (levels : Nat) : List (FieldSlot Draft Json.Document) :=
  let f := Json.format
  [⟨"query", ["query"], String, f.string, (·.query), fun r x => { r with query := x }⟩,
    ⟨"operationName", ["operationName"], Option String, f.optional f.string,
      (·.operationName), fun r x => { r with operationName := x }⟩,
    ⟨"variables", ["variables"], Option (List (String × Json)), f.optional (readBindings levels),
      (·.bindings), fun r x => { r with bindings := x }⟩,
    ⟨"extensions", ["extensions"], Option Json, f.optional (readValue levels), (·.extensions),
      fun r x => { r with extensions := x }⟩]

theorem step_eq (levels : Nat) : step levels = FieldSlot.step (slots levels) := by
  funext r name d
  simp only [slots, FieldSlot.step, List.mem_singleton]
  rfl

theorem slots_lawful (levels : Nat) : FieldSlot.Lawful (slots levels) where
  kept_put := by simp [slots]
  apart := by simp [slots]
  ext := by
    rintro ⟨_, _, _, _⟩ ⟨_, _, _, _⟩ same
    simpa [slots] using same

/-! ## canonical requests -/

structure Canonical (r : Request) : Prop where
  bindings : ∀ vs, r.bindings = some vs → (Json.object vs).Canonical
  extensions : ∀ v, r.extensions = some v → v.Canonical

/-- the request, where null extensions count as none -/
def settled (r : Request) : Request :=
  match r.extensions with
  | some .null => { r with extensions := none }
  | _ => r

theorem toJson_canonical {r : Request} (h : r.Canonical) : r.toJson.Canonical := by
  refine Json.canonical_ofMembers ?_
  unfold members
  simp only [List.forall_mem_append, List.mem_singleton, forall_eq, Option.mem_toList,
    Option.map_eq_some_iff, forall_exists_index, and_imp]
  refine ⟨⟨⟨.string _, ?_⟩, ?_⟩, ?_⟩
  · rintro _ _ _ rfl
    exact .string _
  · rintro _ vs hvs rfl
    exact h.bindings vs hvs
  · rintro _ v hv rfl
    exact h.extensions v hv

/-! ## what an object says -/

def optionalNames : List String := ["operationName", "variables", "extensions"]

/-- whether a member says something about a request -/
def counts (m : String × Json) : Bool :=
  m.1 = "query" || m.1 ∈ optionalNames && !m.2.isNull

def restrict (ms : List (String × Json)) : List (String × Json) := ms.filter counts

variable {ms : List (String × Json)} {name : String}

theorem restrict_query : (restrict ms).filter (fun m => m.1 = "query")
    = ms.filter fun m => m.1 = "query" := by
  unfold restrict counts
  rw [List.filter_filter]
  refine List.filter_congr fun m _ => ?_
  by_cases h : m.1 = "query" <;> simp [h]

theorem restrict_optional (optional : name ∈ optionalNames) :
    (restrict ms).filter (fun m => m.1 = name)
      = (ms.filter fun m => m.1 = name).filter fun m => !m.2.isNull := by
  unfold restrict counts
  rw [List.filter_filter, List.filter_filter]
  refine List.filter_congr fun m _ => ?_
  have hother : name ≠ "query" := by
    rintro rfl
    exact absurd optional (by decide)
  by_cases h : m.1 = name
  · simp [h, hother, optional]
  · simp [h]

theorem restrict_other (query : name ≠ "query") (other : name ∉ optionalNames) :
    (restrict ms).filter (fun m => m.1 = name) = [] := by
  unfold restrict counts
  rw [List.filter_filter, List.filter_eq_nil_iff]
  intro m _ h
  simp only [Bool.and_eq_true, decide_eq_true_eq] at h
  obtain ⟨rfl, hcounts⟩ := h
  simp [query, other] at hcounts

/-- What the one member of a name says, where null says nothing. -/
theorem optional_said_iff {α : Type} {read : Json.Document → Except Fault α} {wrap : α → Json}
    {v : Json} {found : Option α} (reads : ∀ a, read (Json.document v) = .ok a ↔ v = wrap a) :
    Json.format.optional read (Json.document v) = .ok found ↔
      [(name, v)].filter (fun m => !m.2.isNull) = (found.map fun a => (name, wrap a)).toList ∧
        ∀ a, found = some a → wrap a ≠ .null := by
  rw [Json.optional_eq_ok]
  by_cases hv : v = .null
  · subst hv
    cases found with
    | none => exact ⟨fun _ => ⟨rfl, nofun⟩, fun _ => .inl ⟨rfl, rfl⟩⟩
    | some a => exact ⟨by rintro (⟨_, h⟩ | ⟨h, _⟩) <;> contradiction, nofun⟩
  · have hsome : v.isNull = false := Bool.eq_false_iff.mpr (mt Json.isNull_iff.mp hv)
    rw [List.filter_cons_of_pos (by simp [hsome]), List.filter_nil]
    cases found with
    | none => exact ⟨by rintro (⟨h, _⟩ | ⟨_, _, _, h⟩) <;> contradiction, nofun⟩
    | some a =>
      constructor
      · rintro (⟨h, _⟩ | ⟨_, b, hb, hfound⟩)
        · exact absurd h hv
        · cases hfound
          obtain rfl := (reads a).mp hb
          refine ⟨rfl, fun b hb => ?_⟩
          cases hb
          exact hv
      · rintro ⟨h, _⟩
        cases h
        exact .inr ⟨hv, a, (reads a).mpr rfl, rfl⟩

/-- What a slot holds whose member may be left out, or be null. -/
theorem optional_filled {σ α : Type} {read : Json.Document → Except Fault α} {wrap : α → Json}
    (kept : σ → Option (Option α)) (put : σ → Option (Option α) → σ) (found : Option α)
    (rising : Members.Rising ms) (optional : name ∈ optionalNames)
    (reads : ∀ v a, (name, v) ∈ ms → (read (Json.document v) = .ok a ↔ v = wrap a)) :
    (∃ x, FieldSlot.Filled ⟨name, [name], Option α, Json.format.optional read, kept, put⟩
        (Json.named ms) none x ∧ x.getD none = found) ↔
      (restrict ms).filter (fun m => m.1 = name) = (found.map fun a => (name, wrap a)).toList ∧
        ∀ a, found = some a → wrap a ≠ .null := by
  rw [restrict_optional optional]
  rcases rising.named name with hms | ⟨v, hms⟩
  · rw [Json.unsaid_iff hms, hms]
    cases found with
    | none => exact ⟨fun _ => ⟨rfl, nofun⟩, fun _ => rfl⟩
    | some a => exact ⟨nofun, nofun⟩
  · have hmem : (name, v) ∈ ms := (List.mem_filter.mp (hms ▸ List.mem_singleton_self (name, v))).1
    rw [Json.said_iff hms, hms]
    exact optional_said_iff (reads v · hmem)

theorem query_filled {σ : Type} (kept : σ → Option String) (put : σ → Option String → σ)
    (ms : List (String × Json)) (q : String) :
    FieldSlot.Filled ⟨"query", ["query"], String, Json.format.string, kept, put⟩ (Json.named ms)
        none (some q) ↔
      (ms.filter fun m => m.1 = "query") = [("query", .string q)] := by
  constructor
  · intro h
    rcases (Json.filled_one_iff rfl).mp h with ⟨_, h⟩ | ⟨v, a, hv, hread, h⟩
    · cases h
    · cases h
      rw [hv, Json.string_eq_ok.mp hread]
  · intro h
    exact (Json.filled_one_iff rfl).mpr (.inr ⟨.string q, q, h, rfl, rfl⟩)

/-! ## reading -/

theorem readBindings_eq_ok {v : Json} (h : v.Canonical) {levels : Nat} (fits : v.levels ≤ levels)
    (vs : List (String × Json)) :
    readBindings levels (Json.document v) = .ok vs ↔ v = .object vs := by
  cases v with
  | object ms =>
    have hvalue : (Json.Document.object (Json.memberDocuments ms) true).value? levels
        = some (.object ms) := Json.value?_document h fits
    have hread : readBindings levels (Json.document (.object ms)) = .ok ms := by
      unfold readBindings Json.document
      dsimp only
      rw [hvalue]
    rw [hread, Except.ok.injEq, Json.object.injEq]
  | null => exact ⟨nofun, nofun⟩
  | bool _ => exact ⟨nofun, nofun⟩
  | number _ => exact ⟨nofun, nofun⟩
  | string _ => exact ⟨nofun, nofun⟩
  | array _ => exact ⟨nofun, nofun⟩

theorem readValue_eq_ok {v : Json} (h : v.Canonical) {levels : Nat} (fits : v.levels ≤ levels)
    (w : Json) : readValue levels (Json.document v) = .ok w ↔ v = w := by
  unfold readValue
  rw [Json.value?_document h fits, Except.ok.injEq]

/-- A request is read from an object slot by slot. -/
theorem readWithin_object {levels : Nat} {r : Request} :
    readWithin levels (Json.document (.object ms)) = .ok r ↔
      ∃ t : Draft, (∀ F ∈ slots levels, F.Filled (Json.named ms) (F.kept {}) (F.kept t)) ∧
        t.query = some r.query ∧ t.operationName.getD none = r.operationName ∧
        t.bindings.getD none = r.bindings ∧ t.extensions.getD none = r.extensions := by
  have hread : readWithin levels (Json.document (.object ms)) = .ok r ↔
      ∃ t, Parts.fold (step levels) {} ⟨Json.named ms, true⟩ = .ok t ∧
        ∃ q, required "query" t.query = .ok q ∧
          (⟨q, t.operationName.getD none, t.bindings.getD none, t.extensions.getD none⟩ : Request)
            = r := by
    unfold readWithin
    dsimp only
    rw [Json.record_object]
    show (Parts.fold (step levels) {} ⟨Json.named ms, true⟩ >>= _) = .ok r ↔ _
    rw [except_bind_eq_ok]
    refine exists_congr fun t => and_congr_right fun _ => ?_
    rw [except_bind_eq_ok]
    refine exists_congr fun q => and_congr_right fun _ => ?_
    exact ⟨fun h => Except.ok.inj h, fun h => congrArg Except.ok h⟩
  rw [hread]
  refine exists_congr fun t => ?_
  rw [step_eq, (slots_lawful levels).fold_eq_ok]
  simp only [true_and]
  obtain ⟨query, operationName, bindings, extensions⟩ := r
  cases t.query <;> simp [required, eq_comm]

/-! ## what is read -/

theorem canonical_readBindings {levels : Nat} {d : Json.Document} {vs : List (String × Json)}
    (h : readBindings levels d = .ok vs) : (Json.object vs).Canonical := by
  unfold readBindings at h
  split at h
  · split at h
    · rename_i hvalue
      cases h
      exact Json.Document.canonical_value? hvalue
    · cases h
  · cases h

theorem canonical_readValue {levels : Nat} {d : Json.Document} {v : Json}
    (h : readValue levels d = .ok v) : v.Canonical := by
  unfold readValue at h
  split at h
  · rename_i hvalue
    cases h
    exact Json.Document.canonical_value? hvalue
  · cases h

/-- Whatever is read is canonical. -/
theorem canonical_readWithin {levels : Nat} {d : Json.Document} {r : Request}
    (h : readWithin levels d = .ok r) : r.Canonical := by
  have canonical : ∀ {x : Option (List (String × Json))} {y : Option Json},
      (∀ vs, x = some vs → ∃ d, readBindings levels d = .ok vs) →
      (∀ v, y = some v → ∃ d, readValue levels d = .ok v) → ∀ q o, Canonical ⟨q, o, x, y⟩ := by
    intro x y hx hy q o
    refine ⟨fun vs hvs => ?_, fun v hv => ?_⟩
    · obtain ⟨_, hread⟩ := hx vs hvs
      exact canonical_readBindings hread
    · obtain ⟨_, hread⟩ := hy v hv
      exact canonical_readValue hread
  obtain ⟨record, _, h⟩ := except_bind_eq_ok.mp h
  cases record with
  | named ms =>
    obtain ⟨t, hfold, h⟩ := except_bind_eq_ok.mp h
    obtain ⟨q, _, h⟩ := except_bind_eq_ok.mp h
    cases h
    rw [step_eq, (slots_lawful levels).fold_eq_ok] at hfold
    simp only [slots, List.forall_mem_cons] at hfold
    obtain ⟨_, _, _, hbindings, hextensions, _⟩ := hfold
    refine canonical (fun vs hvs => ?_) (fun v hv => ?_) _ _
    · rcases hbindings with ⟨_, same⟩ | ⟨m, _, _, x, hread, hx⟩
      · rw [same] at hvs
        cases hvs
      · rw [hx] at hvs
        cases hvs
        exact ⟨m.2, Json.optional_eq_some hread⟩
    · rcases hextensions with ⟨_, same⟩ | ⟨m, _, _, x, hread, hx⟩
      · rw [same] at hv
        cases hv
      · rw [hx] at hv
        cases hv
        exact ⟨m.2, Json.optional_eq_some hread⟩
  | positional items =>
    obtain ⟨⟨q, items⟩, _, h⟩ := except_bind_eq_ok.mp h
    obtain ⟨⟨o, items⟩, _, h⟩ := except_bind_eq_ok.mp h
    obtain ⟨⟨b, items⟩, hb, h⟩ := except_bind_eq_ok.mp h
    obtain ⟨⟨e, items⟩, he, h⟩ := except_bind_eq_ok.mp h
    obtain rfl := Parts.finish_eq_ok h
    refine canonical (fun vs hvs => ?_) (fun v hv => ?_) _ _
    · subst hvs
      rcases Parts.nextOr_eq_ok hb with h | ⟨d, hd⟩
      · cases h
      · exact ⟨d, Json.optional_eq_some hd⟩
    · subst hv
      rcases Parts.nextOr_eq_ok he with h | ⟨d, hd⟩
      · cases h
      · exact ⟨d, Json.optional_eq_some hd⟩

theorem canonical_withBinding {r : Request} (h : r.Canonical) (name : String) {v : Json}
    (canonical : v.Canonical) : (r.withBinding name v).Canonical := by
  refine ⟨fun vs hvs => ?_, h.extensions⟩
  cases hvs
  have hold : (Json.object (r.bindings.getD [])).Canonical := by
    cases hb : r.bindings with
    | none => exact .object .nil nofun
    | some vs => exact h.bindings vs hb
  cases hold with
  | object rising all =>
    refine .object (rising.insert name v) fun m hm => ?_
    rcases Members.mem_insert hm with rfl | hm
    · exact canonical
    · exact all m hm

/-! ## writing -/

def wireNames : List String := "query" :: optionalNames

/-- what is written under a name -/
def under (r : Request) (name : String) : Option Json :=
  if name = "query" then some (.string r.query)
  else if name = "operationName" then r.operationName.map .string
  else if name = "variables" then r.bindings.map .object
  else if name = "extensions" then r.extensions
  else none

theorem members_eq (r : Request) :
    r.members = wireNames.flatMap fun n => ((r.under n).map fun v => (n, v)).toList := by
  obtain ⟨query, operationName, bindings, extensions⟩ := r
  cases operationName <;> cases bindings <;> cases extensions <;> rfl

theorem under_operationName (r : Request) :
    r.under "operationName" = r.operationName.map .string := rfl

theorem under_bindings (r : Request) : r.under "variables" = r.bindings.map .object := rfl

theorem under_eq_none {r : Request} (h : name ∉ wireNames) : r.under name = none := by
  simp only [wireNames, optionalNames, List.mem_cons, List.not_mem_nil, or_false, not_or] at h
  obtain ⟨hquery, hname, hvariables, hextensions⟩ := h
  unfold under
  rw [if_neg hquery, if_neg hname, if_neg hvariables, if_neg hextensions]

theorem members_named (r : Request) (name : String) :
    (Members.ofList r.members).filter (fun m => m.1 = name)
      = ((r.under name).map fun v => (name, v)).toList := by
  have hother : ∀ n, n ≠ name →
      ((r.under n).map fun v => (n, v)).toList.filter (fun m => m.1 = name) = [] := by
    intro n hn
    cases r.under n with
    | none => rfl
    | some v => exact List.filter_cons_of_neg (by simpa using hn)
  have hown : ((r.under name).map fun v => (name, v)).toList.filter (fun m => m.1 = name)
      = ((r.under name).map fun v => (name, v)).toList := by
    cases r.under name with
    | none => rfl
    | some v => exact List.filter_cons_of_pos (by simp)
  have hmembers : r.members.filter (fun m => m.1 = name)
      = ((r.under name).map fun v => (name, v)).toList := by
    rw [members_eq, List.filter_flatMap]
    by_cases hname : name ∈ wireNames
    · simp only [wireNames, optionalNames, List.mem_cons, List.not_mem_nil, or_false] at hname
      obtain rfl | rfl | rfl | rfl := hname <;>
        simp only [wireNames, optionalNames, List.flatMap_cons, List.flatMap_nil, hown, hother,
          ne_eq, String.reduceEq, not_false_eq_true, List.append_nil, List.nil_append]
    · rw [under_eq_none hname]
      exact List.flatMap_eq_nil_iff.mpr fun n hn => hother n fun h => hname (h ▸ hn)
  rw [Members.filter_ofList r.members fun n => n = name, hmembers]
  cases r.under name <;> rfl

theorem ofList_eq_restrict (rising : Members.Rising ms) {r : Request} :
    Members.ofList r.members = restrict ms ↔
      (ms.filter fun m => m.1 = "query") = [("query", .string r.query)] ∧
        ∀ name ∈ optionalNames, (restrict ms).filter (fun m => m.1 = name)
          = ((r.under name).map fun v => (name, v)).toList := by
  constructor
  · intro h
    refine ⟨?_, fun name _ => ?_⟩
    · rw [← restrict_query, ← h]
      exact r.members_named "query"
    · rw [← h]
      exact r.members_named name
  · rintro ⟨query, optional⟩
    refine (Members.rising_ofList _).ext (rising.sublist List.filter_sublist) fun name => ?_
    rw [members_named]
    by_cases hquery : name = "query"
    · subst hquery
      rw [restrict_query, query]
      rfl
    · by_cases hname : name ∈ optionalNames
      · exact (optional name hname).symm
      · rw [restrict_other hquery hname,
          under_eq_none (List.not_mem_cons_of_ne_of_not_mem hquery hname)]
        rfl

/-- An object is read as a request just if it says what the request writes. -/
theorem ofJson?_eq_ok (h : (Json.object ms).Canonical) {r : Request} :
    ofJson? (.object ms) = .ok r ↔
      Members.ofList r.members = restrict ms ∧ r.extensions ≠ some .null := by
  obtain ⟨rising, all⟩ : Members.Rising ms ∧ ∀ m ∈ ms, m.2.Canonical := by
    cases h with
    | object rising all => exact ⟨rising, all⟩
  have fits : ∀ m ∈ ms, m.2.levels ≤ (Json.object ms).levels := fun m hm =>
    Nat.le_succ_of_le (Json.levels_le_memberLevels hm)
  have query := query_filled (·.query) (fun (t : Draft) x => { t with query := x }) ms r.query
  have operationName := optional_filled (·.operationName)
    (fun (t : Draft) x => { t with operationName := x }) r.operationName rising
    (show "operationName" ∈ optionalNames by decide) fun _ _ _ => Json.string_eq_ok
  have bindings := optional_filled (·.bindings) (fun (t : Draft) x => { t with bindings := x })
    r.bindings rising (show "variables" ∈ optionalNames by decide) fun v vs hv =>
      readBindings_eq_ok (all _ hv) (fits _ hv) vs
  have extensions := optional_filled (·.extensions)
    (fun (t : Draft) x => { t with extensions := x }) r.extensions rising
    (show "extensions" ∈ optionalNames by decide) fun v w hv =>
      readValue_eq_ok (all _ hv) (fits _ hv) w
  unfold ofJson?
  rw [readWithin_object, ofList_eq_restrict rising]
  simp only [slots, List.forall_mem_cons, List.not_mem_nil, false_implies, implies_true, and_true,
    optionalNames]
  constructor
  · rintro ⟨t, ⟨hq, ho, hv, he⟩, hquery, hname, hbindings, hextensions⟩
    obtain ⟨hname, _⟩ := operationName.mp ⟨_, ho, hname⟩
    obtain ⟨hbindings, _⟩ := bindings.mp ⟨_, hv, hbindings⟩
    obtain ⟨hextensions, hsome⟩ := extensions.mp ⟨_, he, hextensions⟩
    rw [hquery] at hq
    exact ⟨⟨query.mp hq, hname.trans (by rw [under_operationName, Option.map_map]; rfl),
      hbindings.trans (by rw [under_bindings, Option.map_map]; rfl), hextensions⟩,
      fun h => hsome _ h rfl⟩
  · rintro ⟨⟨hquery, hname, hbindings, hextensions⟩, hsome⟩
    obtain ⟨o, ho, hname⟩ := operationName.mpr
      ⟨hname.trans (by rw [under_operationName, Option.map_map]; rfl), nofun⟩
    obtain ⟨b, hv, hbindings⟩ := bindings.mpr
      ⟨hbindings.trans (by rw [under_bindings, Option.map_map]; rfl), nofun⟩
    obtain ⟨e, he, hextensions⟩ := extensions.mpr
      ⟨hextensions, fun v hv h => hsome (hv.trans (congrArg some h))⟩
    exact ⟨⟨some r.query, o, b, e⟩, ⟨query.mpr hquery, ho, hv, he⟩, rfl, hname, hbindings,
      hextensions⟩

/-! ## there and back -/

theorem under_settled (r : Request) (optional : name ∈ optionalNames) :
    r.settled.under name = (r.under name).filter fun v => !v.isNull := by
  obtain ⟨query, operationName, bindings, extensions⟩ := r
  simp only [optionalNames, List.mem_cons, List.not_mem_nil, or_false] at optional
  obtain rfl | rfl | rfl := optional
  · cases operationName <;> rcases extensions with _ | ⟨_ | _⟩ <;> rfl
  · cases bindings <;> rcases extensions with _ | ⟨_ | _⟩ <;> rfl
  · rcases extensions with _ | ⟨_ | _⟩ <;> rfl

theorem settled_query (r : Request) : r.settled.query = r.query := by
  unfold settled
  split <;> rfl

theorem settled_extensions (r : Request) : r.settled.extensions ≠ some .null := by
  unfold settled
  split
  · nofun
  · assumption

theorem restrict_members (r : Request) :
    Members.ofList r.settled.members = restrict (Members.ofList r.members) := by
  refine (ofList_eq_restrict (Members.rising_ofList _)).mpr ⟨?_, fun name optional => ?_⟩
  · rw [members_named, settled_query]
    rfl
  · rw [restrict_optional optional, members_named, under_settled r optional]
    cases r.under name with
    | none => rfl
    | some v => cases v <;> rfl

theorem under_congr {r r' : Request} (h : r.toJson = r'.toJson) (name : String) :
    r.under name = r'.under name := by
  have hpart : ((r.under name).map fun v => (name, v)).toList
      = ((r'.under name).map fun v => (name, v)).toList := by
    rw [← members_named, ← members_named, Json.object.inj h]
  have hpair : Function.Injective fun v : Json => (name, v) := fun _ _ hv => congrArg Prod.snd hv
  refine Option.map_injective hpair ?_
  rw [← @Option.head?_toList _ ((r.under name).map _), hpart, Option.head?_toList]

/-- **Requests go over the wire and back.**  A request that is read from its own value is the same
request, where extensions that are null count as none.  Any object that is read as a request is
written as that object again, less the members that say nothing about a request: those of other
names, and of the optional ones those that are null.  And requests have the same value just if they
are the same. -/
theorem wire_exact :
    (∀ r : Request, r.Canonical → ofJson? r.toJson = .ok r.settled) ∧
    (∀ (ms : List (String × Json)) (r : Request), (Json.object ms).Canonical →
      ofJson? (.object ms) = .ok r → r.toJson = .object (restrict ms)) ∧
    ∀ r r' : Request, r.toJson = r'.toJson ↔ r = r' := by
  refine ⟨fun r h => ?_, fun ms r h read => ?_, fun r r' => ⟨fun h => ?_, congrArg toJson⟩⟩
  · exact (ofJson?_eq_ok (toJson_canonical h)).mpr ⟨restrict_members r, r.settled_extensions⟩
  · exact congrArg Json.object ((ofJson?_eq_ok h).mp read).1
  · have hquery : r.query = r'.query :=
      Json.string.inj (Option.some.inj (under_congr h "query"))
    have hname : r.operationName = r'.operationName :=
      Option.map_injective (fun _ _ => Json.string.inj) (under_congr h "operationName")
    have hbindings : r.bindings = r'.bindings :=
      Option.map_injective (fun _ _ => Json.object.inj) (under_congr h "variables")
    have hextensions : r.extensions = r'.extensions := under_congr h "extensions"
    obtain ⟨_, _, _, _⟩ := r
    obtain ⟨_, _, _, _⟩ := r'
    cases hquery
    cases hname
    cases hbindings
    cases hextensions
    rfl

/-- a request with nested variables and null extensions; and an object with members that are null,
that are empty, and that nobody knows -/
theorem wire_exact_nested :
    let filter : Json := .object [("since", .null), ("tags", .array [.string "new"])]
    let r : Request :=
      { query := "query Top", operationName := some "Top"
        bindings := some [("filter", filter), ("first", .nat 5)], extensions := some .null }
    let ms : List (String × Json) :=
      [("extensions", .null), ("operationName", .null), ("query", .string "query Top"),
        ("trace", .bool true), ("variables", .object [])]
    let s : Request := { query := "query Top", bindings := some [] }
    r.Canonical ∧ ofJson? r.toJson = .ok { r with extensions := none } ∧
      (Json.object ms).Canonical ∧ ofJson? (.object ms) = .ok s ∧
      s.toJson = .object [("query", .string "query Top"), ("variables", .object [])] ∧
      r.toJson ≠ s.toJson := by
  intro filter r ms s
  have hfilter : filter.Canonical := by
    refine .object (by decide) (List.forall_mem_cons.mpr ⟨.null, List.forall_mem_cons.mpr ⟨?_, ?_⟩⟩)
    · exact .array (List.forall_mem_singleton.mpr (.string _))
    · exact List.forall_mem_nil _
  have hr : r.Canonical := by
    refine ⟨fun vs hvs => ?_, fun v hv => ?_⟩
    · cases hvs
      exact .object (by decide) (List.forall_mem_cons.mpr
        ⟨hfilter, List.forall_mem_singleton.mpr (.number _)⟩)
    · cases hv
      exact .null
  have hms : (Json.object ms).Canonical := by
    refine .object (by decide) ?_
    simp only [ms, List.forall_mem_cons]
    exact ⟨.null, .null, .string _, .bool _, .object .nil nofun, nofun⟩
  have hread : ofJson? (.object ms) = .ok s := rfl
  refine ⟨hr, wire_exact.1 r hr, hms, hread, wire_exact.2.1 ms s hms hread, fun h => ?_⟩
  have hname : r.operationName = s.operationName :=
    congrArg operationName ((wire_exact.2.2 r s).mp h)
  cases hname

end Coalesce.Request
