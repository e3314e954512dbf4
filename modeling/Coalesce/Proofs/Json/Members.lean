import Coalesce.Json.Value
import Mathlib.Data.List.Perm.Basic
import Mathlib.Data.List.Induction
import Mathlib.Data.List.Nodup
import Mathlib.Data.String.Basic

/-!
# Members in order

* `Members.Rising`          the names stand in order, each of them once;
* `Members.rising_ofList`   so they do behind `Members.ofList`;
* `Members.ofList_perm`     which keeps all members, if no name is repeated;
* `Members.ofList_rising`   and changes nothing about members in order;
* `Members.filter_ofList`   the members of some names may be put in order by themselves;
* `Rising.ext`              a list in order is told by what it holds under each name.
-/

namespace Coalesce.Members

variable {α : Type} {ms : List (String × α)} {name : String} {value : α}

def Rising (ms : List (String × α)) : Prop := ms.Pairwise fun a b => a.1 < b.1

instance (ms : List (String × α)) : Decidable (Rising ms) :=
  inferInstanceAs (Decidable (ms.Pairwise _))

theorem Rising.names_nodup (h : Rising ms) : (ms.map (·.1)).Nodup :=
  List.pairwise_map.mpr (h.imp fun hlt => ne_of_lt hlt)

theorem Rising.eq_of_perm {ms' : List (String × α)} (h : Rising ms) (h' : Rising ms')
    (same : ms.Perm ms') : ms = ms' :=
  same.eq_of_pairwise (fun _ _ _ _ hlt hgt => absurd hlt (lt_asymm hgt)) h h'

/-! ## insertion -/

theorem mem_insert {m : String × α} (h : m ∈ insert name value ms) :
    m = (name, value) ∨ m ∈ ms := by
  induction ms with
  | nil =>
    rw [insert_nil, List.mem_singleton] at h
    exact .inl h
  | cons first rest ih =>
    unfold insert at h
    split at h
    · rcases List.mem_cons.mp h with rfl | h
      · exact .inl rfl
      · exact .inr h
    · split at h
      · rcases List.mem_cons.mp h with rfl | h
        · exact .inl rfl
        · exact .inr (List.mem_cons_of_mem _ h)
      · rcases List.mem_cons.mp h with rfl | h
        · exact .inr List.mem_cons_self
        · exact (ih h).imp_right (List.mem_cons_of_mem _)

theorem Rising.insert (h : Rising ms) (name : String) (value : α) :
    Rising (insert name value ms) := by
  induction ms with
  | nil => exact List.pairwise_singleton _ _
  | cons first rest ih =>
    obtain ⟨hlt, hrest⟩ := List.pairwise_cons.mp h
    unfold Members.insert
    split
    · rename_i hfirst
      refine List.pairwise_cons.mpr ⟨fun m hm => ?_, h⟩
      rcases List.mem_cons.mp hm with rfl | hm
      · exact hfirst
      · exact lt_trans hfirst (hlt m hm)
    · rename_i hfirst
      split
      · rename_i heq
        exact List.pairwise_cons.mpr ⟨fun m hm => heq ▸ hlt m hm, hrest⟩
      · rename_i hother
        refine List.pairwise_cons.mpr ⟨fun m hm => ?_, ih hrest⟩
        rcases mem_insert hm with rfl | hm
        · exact lt_of_le_of_ne (not_lt.mp hfirst) (Ne.symm hother)
        · exact hlt m hm

/-- A new member is added to those that are there. -/
theorem insert_perm (new : name ∉ ms.map (·.1)) :
    (insert name value ms).Perm ((name, value) :: ms) := by
  induction ms with
  | nil => exact .refl _
  | cons first rest ih =>
    obtain ⟨hfirst, hrest⟩ := not_or.mp (mt List.mem_cons.mpr new)
    unfold insert
    split
    · exact .refl _
    · exact ((ih hrest).cons first).trans (.swap ..)

/-! ## lists in any order -/

theorem ofList_snoc (ms : List (String × α)) (m : String × α) :
    ofList (ms ++ [m]) = insert m.1 m.2 (ofList ms) := by
  unfold ofList
  rw [List.foldl_append]
  rfl

theorem rising_ofList (ms : List (String × α)) : Rising (ofList ms) := by
  induction ms using List.reverseRecOn with
  | nil => exact .nil
  | append_singleton ms m ih => exact ofList_snoc ms m ▸ ih.insert m.1 m.2

theorem ofList_perm (distinct : (ms.map (·.1)).Nodup) : (ofList ms).Perm ms := by
  induction ms using List.reverseRecOn with
  | nil => exact .refl _
  | append_singleton ms m ih =>
    rw [List.map_append, List.nodup_append] at distinct
    obtain ⟨hms, _, hapart⟩ := distinct
    have hnew : m.1 ∉ (ofList ms).map (·.1) := fun hmem =>
      hapart m.1 (((ih hms).map _).mem_iff.mp hmem) m.1 (List.mem_singleton_self _) rfl
    rw [ofList_snoc]
    exact (insert_perm hnew).trans (((ih hms).cons m).trans (List.perm_append_singleton m ms).symm)

theorem ofList_rising (h : Rising ms) : ofList ms = ms :=
  (rising_ofList ms).eq_of_perm h (ofList_perm h.names_nodup)

/-! ## the members of some names -/

/-- In front of all others a member goes first. -/
theorem insert_first (h : ∀ m ∈ ms, name < m.1) : insert name value ms = (name, value) :: ms := by
  cases ms with
  | nil => rfl
  | cons first rest =>
    unfold insert
    rw [if_pos (h first List.mem_cons_self)]

theorem filter_insert (h : Rising ms) (p : String → Bool) :
    (insert name value ms).filter (fun m => p m.1)
      = if p name then insert name value (ms.filter fun m => p m.1)
        else ms.filter fun m => p m.1 := by
  induction ms with
  | nil =>
    rw [insert_nil, List.filter_cons]
    rfl
  | cons first rest ih =>
    obtain ⟨hlt, hrest⟩ := List.pairwise_cons.mp h
    rcases lt_trichotomy name first.1 with hname | hname | hname
    · rw [insert_first (List.forall_mem_cons.mpr ⟨hname, fun m hm => lt_trans hname (hlt m hm)⟩),
        List.filter_cons]
      split
      · refine (insert_first fun m hm => ?_).symm
        rcases List.mem_cons.mp (List.mem_filter.mp hm).1 with rfl | hm
        · exact hname
        · exact lt_trans hname (hlt m hm)
      · rfl
    · subst hname
      have hinsert : insert first.1 value (first :: rest) = (first.1, value) :: rest := by
        unfold insert
        rw [if_neg (lt_irrefl _), if_pos rfl]
      rw [hinsert, List.filter_cons, List.filter_cons]
      split
      · unfold insert
        rw [if_neg (lt_irrefl _), if_pos rfl]
      · rfl
    · have hinsert : insert name value (first :: rest) = first :: insert name value rest := by
        rw [insert, if_neg (lt_asymm hname), if_neg (ne_of_gt hname)]
      rw [hinsert, List.filter_cons, List.filter_cons, ih hrest]
      split
      · split
        · rw [insert, if_neg (lt_asymm hname), if_neg (ne_of_gt hname)]
        · rfl
      · rfl

theorem filter_ofList (ms : List (String × α)) (p : String → Bool) :
    (ofList ms).filter (fun m => p m.1) = ofList (ms.filter fun m => p m.1) := by
  induction ms using List.reverseRecOn with
  | nil => rfl
  | append_singleton ms m ih =>
    rw [ofList_snoc, filter_insert (rising_ofList ms), ih, List.filter_append, List.filter_cons]
    split
    · exact (ofList_snoc _ m).symm
    · exact congrArg ofList (List.append_nil _).symm

/-- A name stands at most once. -/
theorem Rising.named (h : Rising ms) (name : String) :
    (ms.filter fun m => m.1 = name) = [] ∨ ∃ v, (ms.filter fun m => m.1 = name) = [(name, v)] := by
  have hnames : ∀ m ∈ ms.filter fun m => m.1 = name, m.1 = name := fun m hm => by
    simpa using (List.mem_filter.mp hm).2
  have hrising : Rising (ms.filter fun m => m.1 = name) := h.sublist List.filter_sublist
  match hfound : ms.filter fun m => m.1 = name with
  | [] => exact .inl hfound
  | [m] =>
    rw [hfound] at hnames
    obtain rfl := hnames m List.mem_cons_self
    exact .inr ⟨m.2, hfound⟩
  | m :: m' :: rest =>
    rw [hfound] at hnames hrising
    have hlt : m.1 < m'.1 := (List.pairwise_cons.mp hrising).1 m' List.mem_cons_self
    rw [hnames m List.mem_cons_self,
      hnames m' (List.mem_cons_of_mem _ List.mem_cons_self)] at hlt
    exact absurd hlt (lt_irrefl _)

/-- So a list in order is told name by name. -/
theorem Rising.ext {ms' : List (String × α)} (h : Rising ms) (h' : Rising ms')
    (same : ∀ name, (ms.filter fun m => m.1 = name) = ms'.filter fun m => m.1 = name) :
    ms = ms' := by
  have hmem : ∀ {l : List (String × α)} {m : String × α},
      m ∈ l ↔ m ∈ l.filter fun x => x.1 = m.1 := fun {l m} => by simp
  refine h.eq_of_perm h' ((List.perm_ext_iff_of_nodup ?_ ?_).mpr fun m => ?_)
  · exact List.Nodup.of_map _ h.names_nodup
  · exact List.Nodup.of_map _ h'.names_nodup
  · rw [hmem, same m.1, ← hmem]

end Coalesce.Members
