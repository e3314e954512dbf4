import Coalesce.Header.Comparable
import Coalesce.Proofs.Text.Utf8
import Mathlib.Data.List.Forall2
import Mathlib.Data.List.Induction

/-!
# What headers are compared by

* `Header.Ignored`                 names that belong to one request, or to its trace;
* `Headers.named`, `Headers.valuesOf`
                                   the headers of a name in any letter case, and all their values;
* `Headers.Canonical`              what the comparable headers are to be;
* `Headers.lookup_comparable`      what they hold under a name: all values of it, in the order of
                                   arrival;
* `Headers.comparable_eq_iff`      so lists are comparable alike just if they hold the same under
                                   every name that counts;
* `Headers.comparable_canonical`   they are the only canonical list, and what does not change them.

A list with rising names is told by what it holds under each name.
-/

namespace Coalesce

namespace Text

theorem toLower_of_not_upper {c : Char} (h : ¬ (c.val ≥ 'A'.val ∧ c.val ≤ 'Z'.val)) :
    c.toLower = c := by
  unfold Char.toLower
  rw [dif_neg h]

theorem toLower_toLower (c : Char) : c.toLower.toLower = c.toLower := by
  by_cases h : c.val ≥ 'A'.val ∧ c.val ≤ 'Z'.val
  · refine toLower_of_not_upper fun ⟨_, hhigh⟩ => ?_
    have hval : c.toLower.val = c.val + ('a'.val - 'A'.val) := by
      unfold Char.toLower
      rw [dif_pos h]
    have hA : 65 ≤ c.val.toNat := UInt32.le_iff_toNat_le.mp h.1
    have hZ : c.val.toNat ≤ 90 := UInt32.le_iff_toNat_le.mp h.2
    have hsum : c.toLower.val.toNat = c.val.toNat + 32 := by
      rw [hval, UInt32.toNat_add]
      exact Nat.mod_eq_of_lt (show c.val.toNat + 32 < 2 ^ 32 by omega)
    have hend : c.toLower.val.toNat ≤ 90 := UInt32.le_iff_toNat_le.mp hhigh
    omega
  · rw [toLower_of_not_upper h, toLower_of_not_upper h]

theorem lowerAscii_lowerAscii (s : String) : lowerAscii (lowerAscii s) = lowerAscii s := by
  unfold lowerAscii
  rw [String.toList_ofList, List.map_map]
  congr 1
  exact List.map_congr_left fun c _ => toLower_toLower c

theorem sameName_iff {a b : String} : sameName a b = true ↔ lowerAscii a = lowerAscii b := by
  unfold sameName
  rw [beq_iff_eq]

end Text

namespace Header

/-- It names one request, or its trace. -/
def Ignored (name : String) : Prop :=
  Text.lowerAscii name ∈ perRequest ∨ Text.lowerAscii name ∈ tracing ∨
    ∃ start ∈ tracingStarts, start.toList <+: (Text.lowerAscii name).toList

theorem isComparable_eq_false {name : String} : isComparable name = false ↔ Ignored name := by
  unfold isComparable
  dsimp only
  rw [Bool.not_eq_false', Bool.or_eq_true, Bool.or_eq_true, or_assoc, List.contains_iff_mem,
    List.contains_iff_mem, List.any_eq_true]
  unfold Ignored startsWith
  simp only [List.isPrefixOf_iff_prefix]

theorem isComparable_congr {a b : String} (h : Text.sameName a b = true) :
    isComparable a = isComparable b := by
  unfold isComparable
  rw [Text.sameName_iff.mp h]

theorem isComparable_lowerAscii (name : String) :
    isComparable (Text.lowerAscii name) = isComparable name :=
  isComparable_congr (Text.sameName_iff.mpr (Text.lowerAscii_lowerAscii name))

end Header

namespace Headers

/-! ## rising names -/

def Rising (headers : Headers) : Prop := headers.Pairwise fun a b => a.1 < b.1

theorem lookup_cons_eq (name n : String) (values : List String) (rest : Headers) :
    List.lookup name ((n, values) :: rest)
      = if name = n then some values else rest.lookup name := by
  rw [List.lookup_cons]
  by_cases h : name = n
  · rw [if_pos h, beq_iff_eq.mpr h]
  · rw [if_neg h, beq_false_of_ne h]

theorem Rising.lookup_of_mem {headers : Headers} (h : Rising headers) {name : String}
    {values : List String} (hmem : (name, values) ∈ headers) :
    headers.lookup name = some values := by
  induction headers with
  | nil => exact absurd hmem List.not_mem_nil
  | cons a rest ih =>
    obtain ⟨hlt, hrest⟩ := List.pairwise_cons.mp h
    obtain ⟨n, vs⟩ := a
    rw [lookup_cons_eq]
    rcases List.mem_cons.mp hmem with heq | hmem
    · cases heq
      rw [if_pos rfl]
    · rw [if_neg (ne_of_gt (hlt _ hmem))]
      exact ih hrest hmem

theorem mem_of_lookup {headers : Headers} {name : String} {values : List String}
    (h : headers.lookup name = some values) : (name, values) ∈ headers := by
  obtain ⟨before, after, rfl, _⟩ := List.lookup_eq_some_iff.mp h
  exact List.mem_append_right _ List.mem_cons_self

theorem Rising.ext {a b : Headers} (ha : Rising a) (hb : Rising b) (same : ∀ x, x ∈ a ↔ x ∈ b) :
    a = b := by
  have hnodup : ∀ {l : Headers}, Rising l → l.Nodup := fun h =>
    h.imp fun hlt heq => absurd (congrArg Prod.fst heq) (ne_of_lt hlt)
  refine List.Perm.eq_of_pairwise (fun x y _ _ hxy hyx => ?_) ha hb
    ((List.perm_ext_iff_of_nodup (hnodup ha) (hnodup hb)).mpr same)
  exact absurd hxy (lt_asymm hyx)

/-! ## merging -/

section
variable {name : String} {values : List String} {merged : Headers}

theorem name_of_mem_merge {x : String × List String} (hx : x ∈ merge name values merged) :
    x.1 = name ∨ ∃ y ∈ merged, x.1 = y.1 := by
  induction merged with
  | nil =>
    rw [merge_nil, List.mem_singleton] at hx
    exact Or.inl (congrArg Prod.fst hx)
  | cons a rest ih =>
    unfold merge at hx
    split at hx
    · rcases List.mem_cons.mp hx with rfl | hx
      · exact Or.inl rfl
      · exact Or.inr ⟨x, hx, rfl⟩
    · split at hx
      · rcases List.mem_cons.mp hx with rfl | hx
        · exact Or.inr ⟨a, List.mem_cons_self, rfl⟩
        · exact Or.inr ⟨x, List.mem_cons_of_mem _ hx, rfl⟩
      · rcases List.mem_cons.mp hx with rfl | hx
        · exact Or.inr ⟨a, List.mem_cons_self, rfl⟩
        · rcases ih hx with h | ⟨y, hy, h⟩
          · exact Or.inl h
          · exact Or.inr ⟨y, List.mem_cons_of_mem _ hy, h⟩

theorem Rising.merge (h : Rising merged) : Rising (merge name values merged) := by
  induction merged with
  | nil => exact List.pairwise_singleton _ _
  | cons a rest ih =>
    obtain ⟨hlt, hrest⟩ := List.pairwise_cons.mp h
    unfold Headers.merge
    split
    · rename_i hfirst
      refine List.pairwise_cons.mpr ⟨fun x hx => ?_, h⟩
      rcases List.mem_cons.mp hx with rfl | hx
      · exact hfirst
      · exact lt_trans hfirst (hlt x hx)
    · rename_i hfirst
      split
      · exact List.pairwise_cons.mpr ⟨hlt, hrest⟩
      · rename_i hother
        refine List.pairwise_cons.mpr ⟨fun x hx => ?_, ih hrest⟩
        rcases name_of_mem_merge hx with hname | ⟨y, hy, hname⟩
        · rw [hname]
          exact lt_of_le_of_ne (not_lt.mp hfirst) (Ne.symm hother)
        · rw [hname]
          exact hlt y hy

/-- Merging adds values under one name, behind those that are there. -/
theorem Rising.lookup_merge (h : Rising merged) (n : String) :
    (Headers.merge name values merged).lookup n
      = if n = name then some ((merged.lookup name).getD [] ++ values) else merged.lookup n := by
  induction merged with
  | nil =>
    rw [merge_nil, lookup_cons_eq]
    rfl
  | cons a rest ih =>
    obtain ⟨hlt, hrest⟩ := List.pairwise_cons.mp h
    obtain ⟨m, vs⟩ := a
    unfold Headers.merge
    split
    · rename_i hfirst
      -- the name is not there
      have hnone : List.lookup name ((m, vs) :: rest) = none := by
        refine List.lookup_eq_none_iff.mpr fun x hx => ?_
        have hltx : name < x.1 := by
          rcases List.mem_cons.mp hx with rfl | hx
          · exact hfirst
          · exact lt_trans hfirst (hlt x hx)
        exact bne_iff_ne.mpr (ne_of_lt hltx)
      rw [lookup_cons_eq, hnone]
      rfl
    · split
      · rename_i heq
        rw [heq, lookup_cons_eq, lookup_cons_eq, lookup_cons_eq, if_pos rfl]
        by_cases hn : n = m
        · rw [if_pos hn, if_pos hn]
          rfl
        · rw [if_neg hn, if_neg hn, if_neg hn]
      · rename_i hother
        rw [lookup_cons_eq, lookup_cons_eq, lookup_cons_eq, if_neg hother, ih hrest]
        by_cases hn : n = m
        · rw [if_pos hn, if_pos hn, if_neg (hn ▸ Ne.symm hother)]
        · rw [if_neg hn, if_neg hn]

/-- a name behind all others comes last -/
theorem merge_last (h : ∀ x ∈ merged, x.1 < name) :
    Headers.merge name values merged = merged ++ [(name, values)] := by
  induction merged with
  | nil => rfl
  | cons a rest ih =>
    have ha : a.1 < name := h a List.mem_cons_self
    unfold Headers.merge
    rw [if_neg (lt_asymm ha), if_neg (ne_of_gt ha),
      ih fun x hx => h x (List.mem_cons_of_mem _ hx)]
    rfl

end

/-! ## what a list holds under a name -/

/-- the headers of a name, whatever the case of its letters -/
def named (name : String) (headers : Headers) : Headers :=
  headers.filter fun h => Text.sameName h.1 name

/-- whether there is one -/
def Has (headers : Headers) (name : String) : Prop := ∃ h ∈ headers, Text.sameName h.1 name

instance (headers : Headers) (name : String) : Decidable (headers.Has name) :=
  inferInstanceAs (Decidable (∃ h ∈ headers, _))

/-- their values, in the order of arrival -/
def valuesOf (name : String) (headers : Headers) : List String :=
  (named name headers).flatMap (·.2)

theorem has_iff {headers : Headers} {name : String} :
    headers.Has name ↔ named name headers ≠ [] := by
  unfold Has named
  rw [Ne, List.filter_eq_nil_iff]
  push Not
  rfl

theorem has_append {a b : Headers} {name : String} :
    Has (a ++ b) name ↔ a.Has name ∨ b.Has name := by
  unfold Has
  simp only [List.mem_append, or_and_right, exists_or]

theorem has_singleton {h : String × List String} {name : String} :
    Has [h] name ↔ Text.sameName h.1 name = true := by
  unfold Has
  simp only [List.mem_singleton, exists_eq_left]

theorem valuesOf_append (name : String) (a b : Headers) :
    valuesOf name (a ++ b) = valuesOf name a ++ valuesOf name b := by
  unfold valuesOf named
  rw [List.filter_append, List.flatMap_append]

theorem valuesOf_singleton (name : String) (h : String × List String) :
    valuesOf name [h] = if Text.sameName h.1 name then h.2 else [] := by
  unfold valuesOf named
  rw [List.filter_singleton]
  cases Text.sameName h.1 name with
  | true => exact List.flatMap_singleton ..
  | false => rfl

theorem valuesOf_of_not_has {headers : Headers} {name : String} (h : ¬ headers.Has name) :
    valuesOf name headers = [] := by
  unfold valuesOf
  rw [Classical.not_not.mp (mt has_iff.mpr h)]
  rfl

/-! ## the comparable headers -/

theorem comparable_snoc (headers : Headers) (h : String × List String) :
    comparable (headers ++ [h])
      = if Header.isComparable h.1 then merge (Text.lowerAscii h.1) h.2 (comparable headers)
        else comparable headers := by
  unfold comparable
  rw [List.filter_append, List.filter_singleton, List.foldl_append]
  cases Header.isComparable h.1 <;> rfl

theorem comparable_rising (headers : Headers) : Rising (comparable headers) := by
  induction headers using List.reverseRecOn with
  | nil => exact List.Pairwise.nil
  | append_singleton headers h ih =>
    rw [comparable_snoc]
    split
    · exact ih.merge
    · exact ih

/-- Their names count, and are in lower case. -/
theorem name_of_mem_comparable {headers : Headers} {x : String × List String}
    (hx : x ∈ comparable headers) :
    Text.lowerAscii x.1 = x.1 ∧ Header.isComparable x.1 = true := by
  induction headers using List.reverseRecOn generalizing x with
  | nil => exact absurd hx List.not_mem_nil
  | append_singleton headers h ih =>
    rw [comparable_snoc] at hx
    split at hx
    · rename_i hcounts
      rcases name_of_mem_merge hx with hname | ⟨y, hy, hname⟩
      · rw [hname, Text.lowerAscii_lowerAscii, Header.isComparable_lowerAscii]
        exact ⟨rfl, hcounts⟩
      · rw [hname]
        exact ih hy
    · exact ih hx

/-- Under a name that counts they hold all values that arrive, in their order. -/
theorem lookup_comparable (headers : Headers) {name : String}
    (counts : Header.isComparable name = true) :
    (comparable headers).lookup (Text.lowerAscii name)
      = if headers.Has name then some (valuesOf name headers) else none := by
  induction headers using List.reverseRecOn with
  | nil => rfl
  | append_singleton headers h ih =>
    rw [comparable_snoc, valuesOf_append, valuesOf_singleton]
    simp only [has_append, has_singleton]
    by_cases hsame : Text.sameName h.1 name = true
    · have hlower : Text.lowerAscii h.1 = Text.lowerAscii name := Text.sameName_iff.mp hsame
      have hvalues : ((comparable headers).lookup (Text.lowerAscii name)).getD []
          = valuesOf name headers := by
        rw [ih]
        split
        · rfl
        · rename_i hnone
          exact (valuesOf_of_not_has hnone).symm
      rw [if_pos ((Header.isComparable_congr hsame).trans counts),
        (comparable_rising headers).lookup_merge, hlower, if_pos rfl, hvalues,
        if_pos (Or.inr hsame), if_pos hsame]
    · have hother : ¬ Text.lowerAscii name = Text.lowerAscii h.1 := fun heq =>
        hsame (Text.sameName_iff.mpr heq.symm)
      have hlookup : (comparable (headers ++ [h])).lookup (Text.lowerAscii name)
          = (comparable headers).lookup (Text.lowerAscii name) := by
        rw [comparable_snoc]
        split
        · rw [(comparable_rising headers).lookup_merge, if_neg hother]
        · rfl
      rw [← comparable_snoc, hlookup, ih, if_neg hsame, List.append_nil]
      simp only [hsame, Bool.false_eq_true, or_false]

theorem mem_comparable {headers : Headers} {name : String} {values : List String}
    (lower : Text.lowerAscii name = name) (counts : Header.isComparable name = true) :
    (name, values) ∈ comparable headers ↔ headers.Has name ∧ values = valuesOf name headers := by
  have hlookup := lookup_comparable headers counts
  rw [lower] at hlookup
  constructor
  · intro hmem
    rw [(comparable_rising headers).lookup_of_mem hmem] at hlookup
    split at hlookup
    · rename_i hhas
      exact ⟨hhas, Option.some.inj hlookup⟩
    · cases hlookup
  · rintro ⟨hhas, rfl⟩
    rw [if_pos hhas] at hlookup
    exact mem_of_lookup hlookup

/-- Lists are comparable alike just if they hold the same under every name that counts. -/
theorem comparable_eq_iff {a b : Headers} :
    a.comparable = b.comparable ↔ ∀ name, Header.isComparable name = true →
      (a.Has name ↔ b.Has name) ∧ valuesOf name a = valuesOf name b := by
  constructor
  · intro h name counts
    have hboth := lookup_comparable a counts
    rw [h, lookup_comparable b counts] at hboth
    by_cases ha : a.Has name <;> by_cases hb : b.Has name
    · rw [if_pos ha, if_pos hb] at hboth
      exact ⟨iff_of_true ha hb, (Option.some.inj hboth).symm⟩
    · rw [if_pos ha, if_neg hb] at hboth
      cases hboth
    · rw [if_neg ha, if_pos hb] at hboth
      cases hboth
    · rw [valuesOf_of_not_has ha, valuesOf_of_not_has hb]
      exact ⟨iff_of_false ha hb, rfl⟩
  · intro h
    have hmem : ∀ {a b : Headers}, (∀ name, Header.isComparable name = true →
        (a.Has name ↔ b.Has name) ∧ valuesOf name a = valuesOf name b) →
        ∀ x ∈ a.comparable, x ∈ b.comparable := by
      intro a b h x hx
      obtain ⟨hlower, hcounts⟩ := name_of_mem_comparable hx
      obtain ⟨hhas, hvalues⟩ := (mem_comparable hlower hcounts).mp hx
      obtain ⟨hsame, hall⟩ := h x.1 hcounts
      exact (mem_comparable hlower hcounts).mpr ⟨hsame.mp hhas, hvalues.trans hall⟩
    refine (comparable_rising a).ext (comparable_rising b) fun x => ⟨hmem h x, ?_⟩
    exact hmem (fun name counts => ⟨(h name counts).1.symm, (h name counts).2.symm⟩) x

/-- A list that is canonical already stays as it is. -/
theorem comparable_of_rising {headers : Headers} (h : Rising headers)
    (names : ∀ x ∈ headers, Text.lowerAscii x.1 = x.1 ∧ Header.isComparable x.1 = true) :
    comparable headers = headers := by
  induction headers using List.reverseRecOn with
  | nil => rfl
  | append_singleton headers x ih =>
    obtain ⟨hrising, _, hlt⟩ := List.pairwise_append.mp h
    obtain ⟨hlower, hcounts⟩ := names x (List.mem_append_right _ (List.mem_singleton_self x))
    rw [comparable_snoc, if_pos hcounts, hlower,
      ih hrising fun y hy => names y (List.mem_append_left _ hy),
      merge_last fun y hy => hlt y hy x (List.mem_singleton_self x)]

/-! ## canonical lists -/

/-- What the comparable headers of a list are to be. -/
structure Canonical (headers compared : Headers) : Prop where
  /-- in the order of bytes, and each once -/
  rising : compared.Pairwise fun a b => Text.bytes a.1 < Text.bytes b.1
  lower : ∀ h ∈ compared, Text.lowerAscii h.1 = h.1
  names : ∀ name, Text.lowerAscii name = name → ((∃ values, (name, values) ∈ compared) ↔
    ∃ h ∈ headers, Text.sameName h.1 name = true ∧ Header.isComparable h.1 = true)
  values : ∀ h ∈ compared, h.2 = (headers.filter fun x =>
    Text.sameName x.1 h.1 && Header.isComparable x.1).flatMap (·.2)

theorem has_comparable_iff {headers : Headers} {name : String} :
    (∃ h ∈ headers, Text.sameName h.1 name = true ∧ Header.isComparable h.1 = true) ↔
      Header.isComparable name = true ∧ headers.Has name := by
  constructor
  · rintro ⟨h, hmem, hsame, hcounts⟩
    exact ⟨(Header.isComparable_congr hsame).symm.trans hcounts, h, hmem, hsame⟩
  · rintro ⟨hcounts, h, hmem, hsame⟩
    exact ⟨h, hmem, hsame, (Header.isComparable_congr hsame).trans hcounts⟩

theorem valuesOf_comparable {name : String} (counts : Header.isComparable name = true)
    (headers : Headers) :
    (headers.filter fun x => Text.sameName x.1 name && Header.isComparable x.1).flatMap (·.2)
      = valuesOf name headers := by
  unfold valuesOf named
  congr 1
  refine List.filter_congr fun x _ => ?_
  cases hsame : Text.sameName x.1 name with
  | true => rw [Header.isComparable_congr hsame, counts, Bool.and_true]
  | false => rfl

theorem canonical_iff {headers compared : Headers} :
    Canonical headers compared ↔ compared = headers.comparable := by
  constructor
  · intro h
    have hrising : Rising compared := h.rising.imp Text.bytes_lt_iff.mp
    have hcounts : ∀ x ∈ compared, Header.isComparable x.1 = true ∧ headers.Has x.1 := fun x hx =>
      has_comparable_iff.mp ((h.names x.1 (h.lower x hx)).mp ⟨x.2, hx⟩)
    refine hrising.ext (comparable_rising headers) fun x => ⟨fun hx => ?_, fun hx => ?_⟩
    · obtain ⟨counts, hhas⟩ := hcounts x hx
      refine (mem_comparable (h.lower x hx) counts).mpr ⟨hhas, ?_⟩
      rw [h.values x hx, valuesOf_comparable counts]
    · obtain ⟨hlower, counts⟩ := name_of_mem_comparable hx
      obtain ⟨hhas, hvalues⟩ := (mem_comparable hlower counts).mp hx
      obtain ⟨values, hmem⟩ := (h.names x.1 hlower).mpr (has_comparable_iff.mpr ⟨counts, hhas⟩)
      have hsame : values = x.2 := by
        rw [hvalues, ← valuesOf_comparable counts]
        exact h.values _ hmem
      rw [hsame] at hmem
      exact hmem
  · rintro rfl
    refine ⟨(comparable_rising headers).imp Text.bytes_lt_iff.mpr,
      fun x hx => (name_of_mem_comparable hx).1, fun name hlower => ?_, fun x hx => ?_⟩
    · rw [has_comparable_iff]
      constructor
      · rintro ⟨values, hmem⟩
        have hcounts := (name_of_mem_comparable hmem).2
        exact ⟨hcounts, ((mem_comparable hlower hcounts).mp hmem).1⟩
      · rintro ⟨hcounts, hhas⟩
        exact ⟨_, (mem_comparable hlower hcounts).mpr ⟨hhas, rfl⟩⟩
    · obtain ⟨hlower, hcounts⟩ := name_of_mem_comparable hx
      rw [valuesOf_comparable hcounts]
      exact ((mem_comparable hlower hcounts).mp hx).2

/-! ## what does not count -/

theorem not_has_ignored {extra : Headers} (ignored : ∀ h ∈ extra, Header.Ignored h.1)
    {name : String} (counts : Header.isComparable name = true) : ¬ extra.Has name := by
  rintro ⟨h, hmem, hsame⟩
  have hfalse := Header.isComparable_eq_false.mpr (ignored h hmem)
  rw [Header.isComparable_congr hsame, counts] at hfalse
  cases hfalse

theorem comparable_insert {before extra after : Headers}
    (ignored : ∀ h ∈ extra, Header.Ignored h.1) :
    comparable (before ++ extra ++ after) = comparable (before ++ after) := by
  refine comparable_eq_iff.mpr fun name counts => ?_
  have hnone := not_has_ignored ignored counts
  simp only [has_append, valuesOf_append, hnone, or_false, valuesOf_of_not_has hnone,
    List.append_nil, and_self]

theorem comparable_rename {a b : Headers}
    (same : List.Forall₂ (fun x y => Text.sameName x.1 y.1 = true ∧ x.2 = y.2) a b) :
    a.comparable = b.comparable := by
  refine comparable_eq_iff.mpr fun name counts => ?_
  induction same with
  | nil => exact ⟨Iff.rfl, rfl⟩
  | @cons x y a b hxy _ ih =>
    have hname : Text.sameName x.1 name = Text.sameName y.1 name := by
      unfold Text.sameName
      rw [Text.sameName_iff.mp hxy.1]
    have hcons : ∀ (z : String × List String) (l : Headers), z :: l = [z] ++ l := fun _ _ => rfl
    rw [hcons x a, hcons y b, has_append, has_append, valuesOf_append, valuesOf_append,
      has_singleton, has_singleton, valuesOf_singleton, valuesOf_singleton, hname, hxy.2, ih.1,
      ih.2]
    exact ⟨Iff.rfl, rfl⟩

theorem valuesOf_pieces (name n : String) (pieces : List (List String)) :
    valuesOf name (pieces.map fun values => (n, values)) = valuesOf name [(n, pieces.flatten)] := by
  induction pieces with
  | nil =>
    rw [valuesOf_singleton, List.flatten_nil, ite_self]
    rfl
  | cons values pieces ih =>
    have hcons : ((values :: pieces).map fun values => (n, values))
        = [(n, values)] ++ pieces.map fun values => (n, values) := rfl
    rw [hcons, valuesOf_append, ih, valuesOf_singleton, valuesOf_singleton, valuesOf_singleton,
      List.flatten_cons]
    split <;> rfl

theorem has_pieces {pieces : List (List String)} (some : pieces ≠ []) {name n : String}
    (values : List String) :
    Has (pieces.map fun values => (n, values)) name ↔ Has [(n, values)] name := by
  rw [has_singleton]
  obtain ⟨first, hfirst⟩ := List.exists_mem_of_ne_nil pieces some
  constructor
  · rintro ⟨h, hmem, hsame⟩
    obtain ⟨_, _, rfl⟩ := List.mem_map.mp hmem
    exact hsame
  · intro hsame
    exact ⟨(n, first), List.mem_map.mpr ⟨first, hfirst, rfl⟩, hsame⟩

theorem comparable_split {before after : Headers} {n : String} {pieces : List (List String)}
    (some : pieces ≠ []) :
    comparable (before ++ pieces.map (fun values => (n, values)) ++ after)
      = comparable (before ++ [(n, pieces.flatten)] ++ after) := by
  refine comparable_eq_iff.mpr fun name _ => ?_
  rw [has_append, has_append, has_append, has_append, has_pieces some pieces.flatten,
    valuesOf_append, valuesOf_append, valuesOf_append, valuesOf_append, valuesOf_pieces]
  exact ⟨Iff.rfl, rfl⟩

theorem comparable_reorder {a b : Headers} (same : ∀ name, named name a = named name b) :
    a.comparable = b.comparable := by
  refine comparable_eq_iff.mpr fun name _ => ?_
  rw [has_iff, has_iff]
  unfold valuesOf
  rw [same name]
  exact ⟨Iff.rfl, rfl⟩

/-- **Comparable headers are canonical.**  They are the only list with rising names, all in lower case,
that has a name just if a header of that name counts, with the values of all these headers in their
order.  So two lists are comparable alike just if every name that counts is in both or in neither,
with the same values.  It makes no difference to put in or to take out headers that are ignored, to
write names in other letter cases, to spread the values of a header over several ones that follow
each other, or to reorder headers of different names; and what is compared is comparable to itself. -/
theorem comparable_canonical :
    (∀ headers compared : Headers, Canonical headers compared ↔ compared = headers.comparable) ∧
    (∀ a b : Headers, a.comparable = b.comparable ↔ ∀ name, Header.isComparable name = true →
      (a.Has name ↔ b.Has name) ∧ valuesOf name a = valuesOf name b) ∧
    (∀ before extra after : Headers, (∀ h ∈ extra, Header.Ignored h.1) →
      comparable (before ++ extra ++ after) = comparable (before ++ after)) ∧
    (∀ a b : Headers,
      List.Forall₂ (fun x y => Text.sameName x.1 y.1 = true ∧ x.2 = y.2) a b →
      a.comparable = b.comparable) ∧
    (∀ (before after : Headers) (name : String) (pieces : List (List String)), pieces ≠ [] →
      comparable (before ++ pieces.map (fun values => (name, values)) ++ after)
        = comparable (before ++ [(name, pieces.flatten)] ++ after)) ∧
    (∀ a b : Headers, (∀ name, named name a = named name b) → a.comparable = b.comparable) ∧
    ∀ headers : Headers, headers.comparable.comparable = headers.comparable := by
  refine ⟨fun _ _ => canonical_iff, fun _ _ => comparable_eq_iff,
    fun _ _ _ ignored => comparable_insert ignored, fun _ _ same => comparable_rename same,
    fun _ _ _ _ some => comparable_split some, fun _ _ same => comparable_reorder same,
    fun headers => ?_⟩
  exact comparable_of_rising (comparable_rising headers) fun x hx => name_of_mem_comparable hx

/-- names in several letter cases, out of order, around a header that carries a trace -/
theorem comparable_canonical_mixed :
    let before : Headers := [("X-Tenant", ["t"]), ("Accept", ["b", "a"])]
    let extra : Headers := [("X-B3-TraceId", ["7"])]
    let after : Headers := [("accept", ["c"])]
    let compared : Headers := [("accept", ["b", "a", "c"]), ("x-tenant", ["t"])]
    (∀ h ∈ extra, Header.Ignored h.1) ∧ Canonical (before ++ extra ++ after) compared := by
  intro before extra after compared
  have ignored : ∀ h ∈ extra, Header.Ignored h.1 := by
    intro h hh
    rw [List.mem_singleton.mp hh]
    exact Header.isComparable_eq_false.mp (by decide)
  refine ⟨ignored, (comparable_canonical.1 _ _).mpr ?_⟩
  rw [comparable_canonical.2.2.1 before extra after ignored]
  decide

end Headers

end Coalesce
