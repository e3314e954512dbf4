import Coalesce.Json.Format
import Coalesce.Proofs.Batch.Restore

/-!
# Records read member by member

* `FieldSlot`           a field of a record: the names that it goes by, how it is read, and where it
                        is kept while the record is read;
* `FieldSlot.step`      reads a member into the slot that goes by its name;
* `FieldSlot.Lawful`    no two slots share a name, or a place to be kept at;
* `FieldSlot.Filled`    what a slot holds behind all members: what the one member says that is meant
                        for it;
* `Lawful.fold_eq_ok`   a record is read just if every slot is filled.

The order of the members does not matter, nor do members that no slot is meant for.  So a record is
settled slot by slot, and a slot by the members that go by its names.
-/

namespace Coalesce.Decode

variable {σ D : Type}

theorem once_eq_ok {α : Type} {label : String} {old new : Option α} {read : Except Fault α} :
    once label old read = .ok new ↔ old = none ∧ ∃ v, read = .ok v ∧ new = some v := by
  cases old with
  | some _ =>
    constructor
    · intro h
      cases h
    · rintro ⟨h, _⟩
      cases h
  | none =>
    cases read with
    | error _ =>
      constructor
      · intro h
        cases h
      · rintro ⟨_, _, h, _⟩
        cases h
    | ok v =>
      constructor
      · intro h
        cases h
        exact ⟨rfl, v, rfl, rfl⟩
      · rintro ⟨_, _, h, rfl⟩
        cases h
        rfl

theorem Parts.nextOr_eq_ok {α : Type} {items rest : Parts D} {absent x : α}
    {read : D → Except Fault α} (h : items.nextOr absent read = .ok (x, rest)) :
    x = absent ∨ ∃ d, read d = .ok x := by
  obtain ⟨⟨found, more⟩, _, hread⟩ := except_bind_eq_ok.mp h
  cases found with
  | none =>
    cases hread
    exact .inl rfl
  | some d =>
    obtain ⟨y, hy, heq⟩ := except_bind_eq_ok.mp hread
    cases heq
    exact .inr ⟨d, hy⟩

theorem Parts.finish_eq_ok {α : Type} {items : Parts D} {a x : α}
    (h : items.finish a = .ok x) : x = a := by
  unfold finish at h
  split at h
  · exact (Except.ok.inj h).symm
  · cases h

structure FieldSlot (σ D : Type) where
  /-- the name told when the field is there twice -/
  label : String
  names : List String
  Value : Type
  read : D → Except Fault Value
  kept : σ → Option Value
  put : σ → Option Value → σ

namespace FieldSlot

def step : List (FieldSlot σ D) → σ → String → D → Except Fault σ
  | [], s, _, _ => .ok s
  | F :: rest, s, name, d =>
    if name ∈ F.names then do
      let x ← once F.label (F.kept s) (F.read d)
      return F.put s x
    else step rest s name d

structure Lawful (slots : List (FieldSlot σ D)) : Prop where
  kept_put : ∀ F ∈ slots, ∀ s x, F.kept (F.put s x) = x
  apart : slots.Pairwise fun F G => (∀ n ∈ F.names, n ∉ G.names) ∧
    (∀ s x, G.kept (F.put s x) = G.kept s) ∧ ∀ s x, F.kept (G.put s x) = F.kept s
  ext : ∀ s t, (∀ F ∈ slots, F.kept s = F.kept t) → s = t

/-! ## one member -/

variable {F : FieldSlot σ D} {slots : List (FieldSlot σ D)} {s t : σ} {m : String × D}

/-- What a slot holds behind one member. -/
def Takes (F : FieldSlot σ D) (m : String × D) (old new : Option F.Value) : Prop :=
  if m.1 ∈ F.names then old = none ∧ ∃ v, F.read m.2 = .ok v ∧ new = some v else new = old

theorem put_eq_ok {name : String} {d : D} (here : name ∈ F.names) :
    step (F :: slots) s name d = .ok t ↔
      F.kept s = none ∧ ∃ v, F.read d = .ok v ∧ t = F.put s (some v) := by
  unfold step
  rw [if_pos here, except_bind_eq_ok]
  constructor
  · rintro ⟨x, hx, ht⟩
    obtain ⟨free, v, read, rfl⟩ := once_eq_ok.mp hx
    cases ht
    exact ⟨free, v, read, rfl⟩
  · rintro ⟨free, v, read, rfl⟩
    exact ⟨some v, once_eq_ok.mpr ⟨free, v, read, rfl⟩, rfl⟩

/-- A place at which no slot keeps anything stays as it is. -/
theorem kept_step {α : Type} {kept : σ → α} (others : ∀ F ∈ slots, ∀ s x, kept (F.put s x) = kept s)
    (ok : step slots s m.1 m.2 = .ok t) : kept t = kept s := by
  induction slots with
  | nil =>
    cases ok
    rfl
  | cons F rest ih =>
    obtain ⟨hF, hrest⟩ := List.forall_mem_cons.mp others
    by_cases here : m.1 ∈ F.names
    · obtain ⟨_, v, _, rfl⟩ := (put_eq_ok here).mp ok
      exact hF s (some v)
    · unfold step at ok
      rw [if_neg here] at ok
      exact ih hrest ok

theorem step_takes (kept_put : ∀ F ∈ slots, ∀ s x, F.kept (F.put s x) = x)
    (apart : slots.Pairwise fun F G => (∀ n ∈ F.names, n ∉ G.names) ∧
      (∀ s x, G.kept (F.put s x) = G.kept s) ∧ ∀ s x, F.kept (G.put s x) = F.kept s)
    (ok : step slots s m.1 m.2 = .ok t) : ∀ F ∈ slots, F.Takes m (F.kept s) (F.kept t) := by
  induction slots with
  | nil => exact fun F hF => absurd hF List.not_mem_nil
  | cons F rest ih =>
    obtain ⟨hkept, hrest⟩ := List.forall_mem_cons.mp kept_put
    obtain ⟨hF, hapart⟩ := List.pairwise_cons.mp apart
    by_cases here : m.1 ∈ F.names
    · obtain ⟨free, v, read, rfl⟩ := (put_eq_ok here).mp ok
      refine List.forall_mem_cons.mpr ⟨?_, fun G hG => ?_⟩
      · unfold Takes
        rw [if_pos here]
        exact ⟨free, v, read, hkept s (some v)⟩
      · unfold Takes
        rw [if_neg ((hF G hG).1 m.1 here)]
        exact (hF G hG).2.1 s (some v)
    · unfold step at ok
      rw [if_neg here] at ok
      refine List.forall_mem_cons.mpr ⟨?_, ih hrest hapart ok⟩
      unfold Takes
      rw [if_neg here]
      exact kept_step (fun G hG => (hF G hG).2.2) ok

theorem exists_step (ready : ∀ F ∈ slots, m.1 ∈ F.names →
    F.kept s = none ∧ ∃ v, F.read m.2 = .ok v) : ∃ t, step slots s m.1 m.2 = .ok t := by
  induction slots with
  | nil => exact ⟨s, rfl⟩
  | cons F rest ih =>
    obtain ⟨hF, hrest⟩ := List.forall_mem_cons.mp ready
    by_cases here : m.1 ∈ F.names
    · obtain ⟨free, v, read⟩ := hF here
      exact ⟨_, (put_eq_ok here).mpr ⟨free, v, read, rfl⟩⟩
    · unfold step
      rw [if_neg here]
      exact ih hrest

/-! ## all members -/

/-- the members that are meant for the slot -/
def said (F : FieldSlot σ D) (ms : List (String × D)) : List (String × D) :=
  ms.filter fun m => m.1 ∈ F.names

inductive Filled (F : FieldSlot σ D) (ms : List (String × D)) (old new : Option F.Value) :
    Prop where
  | unsaid (nothing : F.said ms = []) (same : new = old)
  | said (m : String × D) (one : F.said ms = [m]) (free : old = none) (v : F.Value)
      (read : F.read m.2 = .ok v) (filled : new = some v)

variable {ms : List (String × D)}

theorem said_cons_of_mem (h : m.1 ∈ F.names) : F.said (m :: ms) = m :: F.said ms :=
  List.filter_cons_of_pos (by simpa using h)

theorem said_cons_of_not_mem (h : m.1 ∉ F.names) : F.said (m :: ms) = F.said ms :=
  List.filter_cons_of_neg (by simpa using h)

theorem filled_cons_iff {old mid new : Option F.Value} (h : F.Takes m old mid) :
    F.Filled (m :: ms) old new ↔ F.Filled ms mid new := by
  unfold Takes at h
  split at h
  · rename_i hmem
    obtain ⟨rfl, v, hread, rfl⟩ := h
    have hsaid : F.said (m :: ms) = m :: F.said ms := said_cons_of_mem hmem
    constructor
    · rintro (⟨hnone, _⟩ | ⟨m', hone, _, v', hread', rfl⟩)
      · rw [hsaid] at hnone
        cases hnone
      · rw [hsaid] at hone
        obtain ⟨rfl, hnone⟩ := List.cons.inj hone
        rw [hread] at hread'
        cases hread'
        exact .unsaid hnone rfl
    · rintro (⟨hnone, rfl⟩ | ⟨_, _, hfree, _⟩)
      · exact .said m (by rw [hsaid, hnone]) rfl v hread rfl
      · cases hfree
  · rename_i hmem
    subst h
    have hsaid : F.said (m :: ms) = F.said ms := said_cons_of_not_mem hmem
    constructor
    · rintro (⟨hnone, same⟩ | ⟨m', hone, free, v, read, filled⟩)
      · exact .unsaid (hsaid ▸ hnone) same
      · exact .said m' (hsaid ▸ hone) free v read filled
    · rintro (⟨hnone, same⟩ | ⟨m', hone, free, v, read, filled⟩)
      · exact .unsaid (hsaid.trans hnone) same
      · exact .said m' (hsaid.trans hone) free v read filled

namespace Lawful

variable (lawful : Lawful slots)
include lawful

theorem foldlM_eq_ok :
    ms.foldlM (fun s m => step slots s m.1 m.2) s = .ok t ↔
      ∀ F ∈ slots, F.Filled ms (F.kept s) (F.kept t) := by
  induction ms generalizing s with
  | nil =>
    constructor
    · intro h
      cases h
      exact fun F _ => .unsaid rfl rfl
    · intro h
      refine congrArg Except.ok (lawful.ext s t fun F hF => ?_)
      rcases h F hF with ⟨_, same⟩ | ⟨_, one, _⟩
      · exact same.symm
      · cases one
  | cons m rest ih =>
    have takes : ∀ {u}, step slots s m.1 m.2 = .ok u →
        ∀ F ∈ slots, F.Takes m (F.kept s) (F.kept u) :=
      step_takes lawful.kept_put lawful.apart
    rw [List.foldlM_cons, except_bind_eq_ok]
    constructor
    · rintro ⟨u, hu, hrest⟩ F hF
      exact (filled_cons_iff (takes hu F hF)).mpr (ih.mp hrest F hF)
    · intro h
      obtain ⟨u, hu⟩ := exists_step (m := m) (s := s) fun F hF hmem => by
        rcases h F hF with ⟨nothing, _⟩ | ⟨m', one, free, v, read, _⟩
        · rw [said_cons_of_mem hmem] at nothing
          cases nothing
        · rw [said_cons_of_mem hmem] at one
          obtain ⟨rfl, _⟩ := List.cons.inj one
          exact ⟨free, v, read⟩
      exact ⟨u, hu, ih.mpr fun F hF => (filled_cons_iff (takes hu F hF)).mp (h F hF)⟩

/-- Members are read if they are complete, and say just what the slots hold. -/
theorem fold_eq_ok {members : Parts (String × D)} :
    members.fold (step slots) s = .ok t ↔
      members.complete = true ∧ ∀ F ∈ slots, F.Filled members.parts (F.kept s) (F.kept t) := by
  rw [← lawful.foldlM_eq_ok]
  unfold Parts.fold
  rw [except_bind_eq_ok]
  constructor
  · rintro ⟨u, h, hclosed⟩
    split at hclosed
    · rename_i closed
      cases hclosed
      exact ⟨closed, h⟩
    · cases hclosed
  · rintro ⟨closed, h⟩
    exact ⟨t, h, by rw [if_pos closed]⟩

end Lawful

end FieldSlot

end Coalesce.Decode
