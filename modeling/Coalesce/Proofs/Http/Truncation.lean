import Coalesce.Http.Response
import Mathlib.Data.List.Infix

/-!
# The beginning of a long text

* `Http.Longest`            the longest beginning of a text, in whole characters, that fits into so
                            many bytes;
* `Http.cut?_last`          the search for a place to cut finds the last one;
* `Http.cut?_near`          it passes at most three bytes, all of them inside of one character;
* `Http.longest_sliceTo`    what comes before the last place to cut is the longest beginning;
* `Http.truncate_exact`     a text is told as a whole, or by its longest beginning.

A place to cut is a position of the text: in front of a character, or behind the last one.
-/

namespace Coalesce.Http

/-- A beginning that fits into so many bytes; every other one that fits is a part of it. -/
structure Longest (text : String) (bytes : Nat) (start : String) : Prop where
  begins : start.toList <+: text.toList
  fits : start.utf8ByteSize ≤ bytes
  last : ∀ other : String, other.toList <+: text.toList → other.utf8ByteSize ≤ bytes →
    other.toList <+: start.toList

section
variable {text : String} {byte : Nat} {cut : text.Pos}

/-! ## the search -/

theorem cut?_last (h : cut? text byte = some cut) :
    cut.offset.byteIdx ≤ byte ∧ ∀ p : text.Pos, p.offset.byteIdx ≤ byte → p ≤ cut := by
  fun_induction cut? text byte with
  | case1 byte hvalid =>
    cases h
    exact ⟨Nat.le_refl byte, fun p hp => hp⟩
  | case2 => cases h
  | case3 byte hinside ih =>
    obtain ⟨hle, hlast⟩ := ih h
    refine ⟨by omega, fun p hp => hlast p ?_⟩
    -- no position is inside of a character
    have hne : p.offset.byteIdx ≠ byte + 1 := by
      intro heq
      apply hinside
      rw [← heq]
      exact p.isValid
    omega

/-- The next place is behind one character, and that has at most four bytes. -/
theorem cut?_near (h : cut? text byte = some cut) (hbyte : byte ≤ text.utf8ByteSize) :
    byte ≤ cut.offset.byteIdx + 3 := by
  obtain ⟨_, hlast⟩ := cut?_last h
  by_cases hend : cut = text.endPos
  · subst hend
    have hoffset : text.endPos.offset.byteIdx = text.utf8ByteSize := rfl
    omega
  · have hnext : (cut.next hend).offset.byteIdx
        = cut.offset.byteIdx + (cut.get hend).utf8Size := by simp
    have hone : 0 < (cut.get hend).utf8Size := Char.utf8Size_pos _
    have hfour : (cut.get hend).utf8Size ≤ 4 := Char.utf8Size_le_four _
    by_contra hfar
    have hback : (cut.next hend).offset.byteIdx ≤ cut.offset.byteIdx := hlast _ (by omega)
    omega

/-! ## beginnings -/

/-- Every beginning ends at a position. -/
theorem exists_pos_of_begins {start : String} (h : start.toList <+: text.toList) :
    ∃ p : text.Pos, p.offset.byteIdx = start.utf8ByteSize := by
  obtain ⟨rest, hrest⟩ := h
  have hsplit : text = start ++ String.ofList rest := by
    apply String.toList_inj.mp
    simp [hrest]
  have hvalid : start.rawEndPos.IsValid text :=
    String.Pos.Raw.isValid_iff_exists_append.mpr ⟨start, _, hsplit, rfl⟩
  exact ⟨text.pos start.rawEndPos hvalid, rfl⟩

theorem size_sliceTo : (text.sliceTo cut).copy.utf8ByteSize = cut.offset.byteIdx := by
  simp

theorem sliceTo_begins : (text.sliceTo cut).copy.toList <+: text.toList := by
  refine ⟨(text.sliceFrom cut).copy.toList, ?_⟩
  rw [← String.toList_append, String.sliceTo_append_sliceFrom]

/-- Of two beginnings, the one with fewer bytes is a beginning of the other. -/
theorem prefix_of_utf8ByteSize_le {a b : String} (ha : a.toList <+: text.toList)
    (hb : b.toList <+: text.toList) (h : a.utf8ByteSize ≤ b.utf8ByteSize) :
    a.toList <+: b.toList := by
  rcases List.prefix_or_prefix_of_prefix ha hb with hab | ⟨rest, hrest⟩
  · exact hab
  · have hsplit : a = b ++ String.ofList rest := by
      apply String.toList_inj.mp
      simp [hrest]
    have hsize : a.utf8ByteSize = b.utf8ByteSize + (String.ofList rest).utf8ByteSize := by
      rw [hsplit, String.utf8ByteSize_append]
    have hnone : String.ofList rest = "" := String.utf8ByteSize_eq_zero_iff.mp (by omega)
    rw [hsplit, hnone, String.append_empty]

theorem longest_sliceTo (h : cut? text byte = some cut) :
    Longest text byte (text.sliceTo cut).copy := by
  obtain ⟨hle, hlast⟩ := cut?_last h
  refine ⟨sliceTo_begins, ?_, fun other hother hfits => ?_⟩
  · rw [size_sliceTo]
    exact hle
  · obtain ⟨p, hp⟩ := exists_pos_of_begins hother
    have hbefore : p.offset.byteIdx ≤ cut.offset.byteIdx := hlast p (by omega)
    apply prefix_of_utf8ByteSize_le hother sliceTo_begins
    rw [size_sliceTo]
    omega

end

/-- **A long text is told by its longest beginning.**  A text of at most 2048 bytes is told as it is.
Of a longer one the longest beginning that consists of whole characters and has at most 2048 bytes is
told, with three dots behind it, and that beginning has at least 2045 bytes.  It ends where the search
for a place to cut ends, which starts at byte 2048.  From whatever byte it starts, the search ends at a
position of the text before it gets below the first byte; that is the last position there is, and
inside of the text the search passes at most three bytes. -/
theorem truncate_exact (text : String) :
    (text.utf8ByteSize ≤ 2048 → truncate text = text) ∧
    (2048 < text.utf8ByteSize → ∃ start : String, Longest text 2048 start ∧
      2045 ≤ start.utf8ByteSize ∧ truncate text = start ++ "..." ∧
      ∃ cut, cut? text 2048 = some cut ∧ start = (text.sliceTo cut).copy) ∧
    ∀ byte, ∃ cut, cut? text byte = some cut ∧ cut.offset.byteIdx ≤ byte ∧
      (∀ p : text.Pos, p.offset.byteIdx ≤ byte → p ≤ cut) ∧
      (byte ≤ text.utf8ByteSize → byte ≤ cut.offset.byteIdx + 3) := by
  refine ⟨fun hshort => ?_, fun hlong => ?_, fun byte => ?_⟩
  · exact if_pos hshort
  · obtain ⟨cut, hcut⟩ := Option.isSome_iff_exists.mp (isSome_cut? text maxErrorBody)
    have hnear : 2048 ≤ cut.offset.byteIdx + 3 := cut?_near hcut (by omega)
    refine ⟨_, longest_sliceTo hcut, ?_, ?_, cut, hcut, rfl⟩
    · rw [size_sliceTo]
      omega
    · have hnot : ¬ text.utf8ByteSize ≤ maxErrorBody := Nat.not_le.mpr hlong
      unfold truncate
      simp only [if_neg hnot, hcut, Option.get_some]
  · obtain ⟨cut, hcut⟩ := Option.isSome_iff_exists.mp (isSome_cut? text byte)
    obtain ⟨hle, hlast⟩ := cut?_last hcut
    exact ⟨cut, hcut, hle, hlast, cut?_near hcut⟩

/-- a text whose last character begins three bytes before the limit, and ends behind it -/
theorem truncate_exact_straddling :
    let letters : List Char := List.replicate 2045 'a'
    let text : String := String.ofList (letters ++ ['😀'])
    2048 < text.utf8ByteSize ∧ truncate text = String.ofList letters ++ "..." := by
  intro letters text
  have hcount : ∀ n, (String.ofList (List.replicate n 'a')).utf8ByteSize = n := by
    intro n
    have hone : Char.utf8Size 'a' = 1 := rfl
    induction n with
    | zero => rfl
    | succ n ih =>
      rw [List.replicate_succ, String.ofList_cons, String.utf8ByteSize_append, ih,
        String.utf8ByteSize_singleton]
      omega
  have hletters : (String.ofList letters).utf8ByteSize = 2045 := hcount 2045
  have hsize : text.utf8ByteSize = 2049 := by
    show (String.ofList (letters ++ ['😀'])).utf8ByteSize = 2049
    rw [String.ofList_append, String.utf8ByteSize_append, hletters]
    rfl
  have hlong : 2048 < text.utf8ByteSize := by omega
  obtain ⟨start, hlongest, _, htold, _⟩ := (truncate_exact text).2.1 hlong
  have htext : text.toList = letters ++ ['😀'] := String.toList_ofList
  -- the letters fit, and the text as a whole does not
  have hfirst : letters <+: start.toList := by
    have h := hlongest.last (String.ofList letters)
    rw [String.toList_ofList, htext] at h
    exact h (List.prefix_append _ _) (by omega)
  have hstart : start.toList <+: letters := by
    have hbegins := hlongest.begins
    rw [htext] at hbegins
    rcases List.prefix_concat_iff.mp hbegins with hwhole | hpart
    · have hfits : start.utf8ByteSize ≤ 2048 := hlongest.fits
      have hall : start = text := String.toList_inj.mp (hwhole.trans htext.symm)
      rw [hall] at hfits
      omega
    · exact hpart
  refine ⟨hlong, ?_⟩
  rw [htold, ← hstart.eq_of_length_le hfirst.length_le, String.ofList_toList]

end Coalesce.Http
