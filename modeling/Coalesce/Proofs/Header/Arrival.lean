import Coalesce.Caller
import Coalesce.Proofs.Header.Comparable

/-!
# Headers that are added one by one

* `Headers.separate`            values as headers of their own;
* `Headers.firstValues`, `Headers.laterValues`
                                what the first header of a name holds, and all others of that name;
* `Headers.named_add`           a value reaches only the headers of its name;
* `Headers.firstValues_add`, `Headers.laterValues_add`
                                it is put behind the values of the first one;
* `Headers.valuesOf_addAll`     so added values stand between the first header and the others;
* `Headers.comparable_addAll_iff`
                                and they are compared in the order of arrival just if it makes no
                                difference on which side of the others they stand;
* `Headers.arrival_of_added`    the same of a context.

Only where a name that counts is repeated, values can be compared in another order than that of
arrival.
-/

namespace Coalesce

namespace Text

theorem sameName_congr {a b : String} (h : sameName a b = true) (c : String) :
    sameName a c = sameName b c := by
  unfold sameName
  rw [sameName_iff.mp h]

theorem sameName_of_same {a b c : String} (ha : sameName a c = true) (hb : sameName b c = true) :
    sameName a b = true := by
  rw [sameName_iff] at ha hb ⊢
  exact ha.trans hb.symm

end Text

namespace Headers

/-! ## a header for every value -/

/-- a header for every value -/
def separate (pairs : List (String × String)) : Headers := pairs.map fun p => (p.1, [p.2])

theorem separate_cons (p : String × String) (pairs : List (String × String)) :
    separate (p :: pairs) = [(p.1, [p.2])] ++ separate pairs := rfl

theorem separate_append (a b : List (String × String)) :
    separate (a ++ b) = separate a ++ separate b := List.map_append

/-- A header holds the same as a header for each of its values. -/
theorem valuesOf_separate (name n : String) (values : List String) :
    valuesOf name (separate (values.map fun v => (n, v))) = valuesOf name [(n, values)] := by
  have hpieces : separate (values.map fun v => (n, v))
      = (values.map fun v => [v]).map fun vs => (n, vs) := by
    unfold separate
    rw [List.map_map, List.map_map]
    rfl
  have hflat : (values.map fun v => [v]).flatten = values := by
    rw [← List.flatMap_def, List.flatMap_singleton']
  rw [hpieces, valuesOf_pieces, hflat]

theorem valuesOf_lowered (name : String) (pairs : List (String × String)) :
    valuesOf name (separate (pairs.map fun p => (Text.lowerAscii p.1, p.2)))
      = valuesOf name (separate pairs) := by
  induction pairs with
  | nil => rfl
  | cons p pairs ih =>
    have hname : Text.sameName (Text.lowerAscii p.1) name = Text.sameName p.1 name := by
      apply Text.sameName_congr
      rw [Text.sameName_iff, Text.lowerAscii_lowerAscii]
    rw [List.map_cons, separate_cons, separate_cons, valuesOf_append, valuesOf_append, ih,
      valuesOf_singleton, valuesOf_singleton, hname]

theorem valuesOf_eq_nil_iff {name : String} {headers : Headers} :
    valuesOf name headers = [] ↔
      ∀ h ∈ headers, Text.sameName h.1 name = true → h.2 = [] := by
  unfold valuesOf named
  rw [List.flatMap_eq_nil_iff]
  simp only [List.mem_filter, and_imp]

/-! ## the first header of a name -/

/-- the values of the first header of a name -/
def firstValues (name : String) (headers : Headers) : List String :=
  ((named name headers).take 1).flatMap (·.2)

/-- the values of all other headers of that name -/
def laterValues (name : String) (headers : Headers) : List String :=
  ((named name headers).drop 1).flatMap (·.2)

theorem firstValues_append_laterValues (name : String) (headers : Headers) :
    firstValues name headers ++ laterValues name headers = valuesOf name headers := by
  unfold firstValues laterValues valuesOf
  rw [← List.flatMap_append, List.take_append_drop]

theorem named_cons (name : String) (h : String × List String) (headers : Headers) :
    named name (h :: headers)
      = if Text.sameName h.1 name then h :: named name headers else named name headers :=
  List.filter_cons

/-! ## one value -/

section
variable (name n value : String) (headers : Headers)

/-- A value reaches the headers of a name just if it is added under that name. -/
theorem named_add :
    named name (headers.add n value)
      = if Text.sameName n name then (named name headers).add n value
        else named name headers := by
  induction headers with
  | nil =>
    rw [add_nil, named_cons]
    rfl
  | cons h rest ih =>
    obtain ⟨m, vs⟩ := h
    by_cases hm : Text.sameName m n = true
    · have hsame : Text.sameName m name = Text.sameName n name := Text.sameName_congr hm name
      have hadd : ∀ l, add n value ((m, vs) :: l) = (m, vs ++ [value]) :: l := fun l => if_pos hm
      rw [hadd, named_cons, named_cons]
      by_cases hn : Text.sameName n name = true
      · simp only [hsame, hn, if_true, hadd]
      · simp only [hsame, hn, Bool.false_eq_true, if_false]
    · have hadd : ∀ l, add n value ((m, vs) :: l) = (m, vs) :: add n value l := fun l => if_neg hm
      rw [hadd, named_cons, named_cons, ih]
      by_cases hmn : Text.sameName m name = true
      · -- the two names are not the same, so the added one is none of this name
        have hn : ¬ Text.sameName n name = true := by
          intro hn
          apply hm
          exact Text.sameName_of_same hmn hn
        simp only [hmn, hn, if_true, Bool.false_eq_true, if_false]
      · simp only [hmn, Bool.false_eq_true, if_false]

/-- Added to headers of one name, a value goes to the first of them. -/
theorem add_of_same {l : Headers} (h : ∀ x ∈ l, Text.sameName x.1 n = true) :
    ((add n value l).take 1).flatMap (·.2) = (l.take 1).flatMap (·.2) ++ [value] ∧
      (add n value l).drop 1 = l.drop 1 := by
  cases l with
  | nil => exact ⟨rfl, rfl⟩
  | cons x rest =>
    have hadd : add n value (x :: rest) = (x.1, x.2 ++ [value]) :: rest :=
      if_pos (h x List.mem_cons_self)
    rw [hadd]
    simp

theorem same_of_mem_named {name n : String} (hn : Text.sameName n name = true) {headers : Headers} :
    ∀ x ∈ named name headers, Text.sameName x.1 n = true := by
  intro x hx
  have hname : Text.sameName x.1 name = true := (List.mem_filter.mp hx).2
  exact Text.sameName_of_same hname hn

theorem firstValues_add :
    firstValues name (headers.add n value)
      = firstValues name headers ++ valuesOf name [(n, [value])] := by
  unfold firstValues
  rw [named_add, valuesOf_singleton]
  by_cases hn : Text.sameName n name = true
  · rw [if_pos hn, if_pos hn]
    exact (add_of_same n value (same_of_mem_named hn)).1
  · rw [if_neg hn, if_neg hn, List.append_nil]

theorem laterValues_add : laterValues name (headers.add n value) = laterValues name headers := by
  unfold laterValues
  rw [named_add]
  by_cases hn : Text.sameName n name = true
  · rw [if_pos hn, (add_of_same n value (same_of_mem_named hn)).2]
  · rw [if_neg hn]

theorem has_add : (headers.add n value).Has name ↔ (headers ++ [(n, [value])]).Has name := by
  rw [has_append, has_singleton, has_iff, has_iff, named_add]
  by_cases hn : Text.sameName n name = true
  · have hsome : (named name headers).add n value ≠ [] := by
      cases named name headers with
      | nil => simp [add_nil]
      | cons x rest =>
        unfold add
        split <;> simp
    simp [hn, hsome]
  · simp [hn]

end

/-! ## many values -/

/-- adds values one after the other -/
def addAll (headers : Headers) (pairs : List (String × String)) : Headers :=
  pairs.foldl (fun headers p => headers.add p.1 p.2) headers

theorem addAll_nil (headers : Headers) : headers.addAll [] = headers := rfl

theorem addAll_cons (headers : Headers) (p : String × String) (pairs : List (String × String)) :
    headers.addAll (p :: pairs) = (headers.add p.1 p.2).addAll pairs := rfl

section
variable (name : String) (headers : Headers) (pairs : List (String × String))

theorem firstValues_addAll :
    firstValues name (headers.addAll pairs)
      = firstValues name headers ++ valuesOf name (separate pairs) := by
  induction pairs generalizing headers with
  | nil => exact (List.append_nil _).symm
  | cons p pairs ih =>
    rw [addAll_cons, ih, firstValues_add, separate_cons, valuesOf_append, List.append_assoc]

theorem laterValues_addAll :
    laterValues name (headers.addAll pairs) = laterValues name headers := by
  induction pairs generalizing headers with
  | nil => rfl
  | cons p pairs ih => rw [addAll_cons, ih, laterValues_add]

/-- Added values stand behind those of the first header of their name, before all others. -/
theorem valuesOf_addAll :
    valuesOf name (headers.addAll pairs)
      = firstValues name headers ++ valuesOf name (separate pairs) ++ laterValues name headers := by
  rw [← firstValues_append_laterValues, firstValues_addAll, laterValues_addAll]

theorem has_addAll : (headers.addAll pairs).Has name ↔ (headers ++ separate pairs).Has name := by
  induction pairs generalizing headers with
  | nil => rw [addAll_nil, separate, List.map_nil, List.append_nil]
  | cons p pairs ih =>
    rw [addAll_cons, ih, has_append, has_add, separate_cons, ← List.append_assoc, ← has_append]

theorem comparable_addAll_iff :
    (headers.addAll pairs).comparable = (headers ++ separate pairs).comparable ↔
      ∀ name, Header.isComparable name = true →
        valuesOf name (separate pairs) ++ laterValues name headers
          = laterValues name headers ++ valuesOf name (separate pairs) := by
  rw [comparable_eq_iff]
  refine forall_congr' fun name => imp_congr_right fun _ => ?_
  rw [valuesOf_addAll, valuesOf_append, ← firstValues_append_laterValues name headers,
    List.append_assoc, List.append_assoc, List.append_cancel_left_eq]
  exact and_iff_right (has_addAll name headers pairs)

end

/-- no two headers that count have one name -/
def Unrepeated (headers : Headers) : Prop :=
  (headers.filter fun h => Header.isComparable h.1).Pairwise fun a b => ¬ Text.sameName a.1 b.1

instance (headers : Headers) : Decidable headers.Unrepeated :=
  inferInstanceAs (Decidable (List.Pairwise _ _))

theorem Unrepeated.laterValues_eq {headers : Headers} (h : headers.Unrepeated) {name : String}
    (counts : Header.isComparable name = true) : laterValues name headers = [] := by
  have hcounted : named name headers
      = named name (headers.filter fun h => Header.isComparable h.1) := by
    unfold named
    rw [List.filter_filter]
    refine List.filter_congr fun x _ => ?_
    cases hsame : Text.sameName x.1 name with
    | true => rw [Header.isComparable_congr hsame, counts, Bool.and_true]
    | false => rfl
  have hpairwise : (named name headers).Pairwise fun a b => ¬ Text.sameName a.1 b.1 := by
    rw [hcounted]
    exact List.Pairwise.filter _ h
  have hsame : ∀ x ∈ named name headers, Text.sameName x.1 name = true := fun x hx =>
    (List.mem_filter.mp hx).2
  unfold laterValues
  match hnamed : named name headers with
  | [] => rfl
  | [x] => rfl
  | x :: y :: rest =>
    rw [hnamed] at hpairwise hsame
    have hxy : ¬ Text.sameName x.1 y.1 = true := (List.pairwise_cons.mp hpairwise).1 y (by simp)
    exact absurd (Text.sameName_of_same (hsame x (by simp)) (hsame y (by simp))) hxy

/-! ## contexts -/

theorem headers_withHeader (c : Context) (pairs : List (String × String)) :
    (pairs.foldl (fun c p => c.withHeader p.1 p.2) c).headers = c.headers.addAll pairs := by
  induction pairs generalizing c with
  | nil => rfl
  | cons p pairs ih => exact ih (c.withHeader p.1 p.2)

/-- **Added values stand behind the first header of their name.**  A context is given headers, and
then values one by one.  Under every name it holds the values of the first header of that name, then
the added ones in the order of arrival, and then those of the other headers of that name, which
arrived before the added ones.  So its comparable headers are those of all headers and values in the
order of arrival just if, under every name that counts, it makes no difference on which side of the
later headers the added values stand; and always if no two of the headers that count have one name. -/
theorem arrival_of_added (c : Context) (headers : Headers) (pairs : List (String × String)) :
    let context := pairs.foldl (fun c p => c.withHeader p.1 p.2) (c.withHeaders headers)
    let arrived := headers ++ separate pairs
    (∀ name, (context.headers.Has name ↔ arrived.Has name) ∧
      valuesOf name context.headers
        = firstValues name headers ++ valuesOf name (separate pairs) ++ laterValues name headers ∧
      valuesOf name arrived
        = firstValues name headers ++ laterValues name headers ++ valuesOf name (separate pairs)) ∧
    (context.headers.comparable = arrived.comparable ↔
      ∀ name, Header.isComparable name = true →
        valuesOf name (separate pairs) ++ laterValues name headers
          = laterValues name headers ++ valuesOf name (separate pairs)) ∧
    (headers.Unrepeated → context.headers.comparable = arrived.comparable) := by
  intro context arrived
  have hcontext : context.headers = headers.addAll pairs :=
    headers_withHeader (c.withHeaders headers) pairs
  rw [hcontext]
  refine ⟨fun name => ⟨has_addAll name headers pairs, valuesOf_addAll name headers pairs, ?_⟩,
    comparable_addAll_iff headers pairs, fun once => ?_⟩
  · show valuesOf name (headers ++ separate pairs) = _
    rw [valuesOf_append, firstValues_append_laterValues]
  · apply (comparable_addAll_iff headers pairs).mpr
    intro name counts
    rw [once.laterValues_eq counts, List.append_nil, List.nil_append]

/-- values in other letter cases, and behind a header that is repeated but does not count -/
theorem arrival_of_added_mixed :
    let headers : Headers :=
      [("Accept", ["b"]), ("X-Request-Id", ["1"]), ("x-request-id", ["2"])]
    let pairs : List (String × String) := [("accept", "a"), ("X-Tenant", "t"), ("ACCEPT", "c")]
    let context := pairs.foldl (fun c p => c.withHeader p.1 p.2) (Context.withHeaders {} headers)
    headers.Unrepeated ∧
      context.headers.comparable = (headers ++ separate pairs).comparable ∧
      context.headers.comparable = [("accept", ["b", "a", "c"]), ("x-tenant", ["t"])] := by
  intro headers pairs context
  have once : headers.Unrepeated := by decide
  have hsame := (arrival_of_added {} headers pairs).2.2 once
  exact ⟨once, hsame, by decide⟩

/-- A value that arrives behind two headers of its name is compared before those of the second. -/
theorem late_value_overtakes :
    ¬ ∀ (c : Context) (headers : Headers) (pairs : List (String × String)),
      (pairs.foldl (fun c p => c.withHeader p.1 p.2) (c.withHeaders headers)).headers.comparable
        = (headers ++ separate pairs).comparable := by
  intro arrival
  have hfound := arrival {} [("A", ["1"]), ("a", ["2"])] [("A", "3")]
  revert hfound
  decide

end Headers

end Coalesce
