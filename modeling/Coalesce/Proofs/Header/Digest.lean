import Coalesce.Header.Digest
import Coalesce.Proofs.Text.Utf8

/-!
# The bytes under a digest

* `Sha256.bigEndian_inj`             a number that fits is told by its bytes;
* `HeaderDigest.framed_append_inj`   where a framed text ends is told by its first bytes, whatever
                                     follows; `framedAll_append_inj` and `header_append_inj` say so
                                     of some texts and of a header;
* `HeaderDigest.preimage_exact`      so two header lists have the same bytes just if they are equal.

The list itself carries no count.  It needs none: every header has at least the bytes of a length,
so that the bytes run out with the headers.
-/

namespace Coalesce

namespace Sha256

theorem bigEndian_length (n value : Nat) : (bigEndian n value).length = n := by
  unfold bigEndian
  rw [List.length_map, List.length_range]

/-- The last byte holds what the others leave. -/
theorem bigEndian_succ (n value : Nat) :
    bigEndian (n + 1) value = bigEndian n (value / 256) ++ [UInt8.ofNat value] := by
  unfold bigEndian
  rw [List.range_succ, List.map_append, List.map_singleton]
  congr 1
  · refine List.map_congr_left fun i hi => ?_
    have hin : i < n := List.mem_range.mp hi
    have hpow : Nat.pow 256 (n + 1 - 1 - i) = 256 * Nat.pow 256 (n - 1 - i) := by
      rw [show n + 1 - 1 - i = n - 1 - i + 1 by omega]
      exact Nat.pow_succ'
    rw [hpow, Nat.div_div_eq_div_mul]
  · rw [Nat.add_sub_cancel, Nat.sub_self]
    exact congrArg (fun v => [UInt8.ofNat v]) (Nat.div_one value)

theorem bigEndian_inj {n v w : Nat} (hv : v < 256 ^ n) (hw : w < 256 ^ n)
    (h : bigEndian n v = bigEndian n w) : v = w := by
  induction n generalizing v w with
  | zero =>
    rw [Nat.pow_zero] at hv hw
    omega
  | succ n ih =>
    rw [bigEndian_succ, bigEndian_succ] at h
    obtain ⟨hhigh, hlow⟩ := List.append_inj' h rfl
    have hdiv : v / 256 = w / 256 := by
      rw [Nat.pow_succ'] at hv hw
      exact ih (Nat.div_lt_of_lt_mul hv) (Nat.div_lt_of_lt_mul hw) hhigh
    have hmod : v % 256 = w % 256 := by
      have hbyte := congrArg UInt8.toNat (List.singleton_inj.mp hlow)
      rwa [UInt8.toNat_ofNat', UInt8.toNat_ofNat'] at hbyte
    rw [← Nat.div_add_mod v 256, ← Nat.div_add_mod w 256, hdiv, hmod]

end Sha256

namespace HeaderDigest

/-- Every length that is written down fits into eight bytes. -/
def Measured (headers : Headers) : Prop :=
  ∀ h ∈ headers, h.1.utf8ByteSize < 2 ^ 64 ∧ h.2.length < 2 ^ 64 ∧
    ∀ v ∈ h.2, v.utf8ByteSize < 2 ^ 64

instance (headers : Headers) : Decidable (Measured headers) :=
  inferInstanceAs (Decidable (∀ h ∈ headers, _ ∧ _ ∧ ∀ v ∈ h.2, _))

theorem word_append_inj {n m : Nat} (hn : n < 2 ^ 64) (hm : m < 2 ^ 64) {x y : List UInt8}
    (h : word n ++ x = word m ++ y) : n = m ∧ x = y := by
  have hlength : (word n).length = (word m).length := by
    unfold word
    rw [Sha256.bigEndian_length, Sha256.bigEndian_length]
  obtain ⟨hword, hrest⟩ := List.append_inj h hlength
  exact ⟨Sha256.bigEndian_inj hn hm hword, hrest⟩

theorem framed_eq (s : String) : framed s = word s.utf8ByteSize ++ Text.bytes s := by
  show word s.toUTF8.toList.length ++ s.toUTF8.toList = _
  rw [Text.toUTF8_toList, Text.bytes_length]

theorem framed_append_inj {s t : String} (hs : s.utf8ByteSize < 2 ^ 64)
    (ht : t.utf8ByteSize < 2 ^ 64) {x y : List UInt8} (h : framed s ++ x = framed t ++ y) :
    s = t ∧ x = y := by
  rw [framed_eq, framed_eq, List.append_assoc, List.append_assoc] at h
  obtain ⟨hsize, hrest⟩ := word_append_inj hs ht h
  have hlength : (Text.bytes s).length = (Text.bytes t).length := by
    rw [Text.bytes_length, Text.bytes_length, hsize]
  obtain ⟨hbytes, hxy⟩ := List.append_inj hrest hlength
  exact ⟨Text.bytes_inj.mp hbytes, hxy⟩

/-- As many framed texts as before: none of them takes bytes of the next. -/
theorem framedAll_append_inj {vs ws : List String} (count : vs.length = ws.length)
    (hvs : ∀ v ∈ vs, v.utf8ByteSize < 2 ^ 64) (hws : ∀ w ∈ ws, w.utf8ByteSize < 2 ^ 64)
    {x y : List UInt8} (h : vs.flatMap framed ++ x = ws.flatMap framed ++ y) : vs = ws ∧ x = y := by
  induction vs generalizing ws with
  | nil =>
    rw [List.eq_nil_of_length_eq_zero count.symm] at h ⊢
    exact ⟨rfl, h⟩
  | cons v vs ih =>
    cases ws with
    | nil => cases count
    | cons w ws =>
      rw [List.flatMap_cons, List.flatMap_cons, List.append_assoc, List.append_assoc] at h
      obtain ⟨rfl, hrest⟩ :=
        framed_append_inj (hvs v List.mem_cons_self) (hws w List.mem_cons_self) h
      obtain ⟨rfl, hxy⟩ := ih (Nat.succ.inj count) (fun u hu => hvs u (List.mem_cons_of_mem _ hu))
        (fun u hu => hws u (List.mem_cons_of_mem _ hu)) hrest
      exact ⟨rfl, hxy⟩

theorem header_append_inj {a b : String × List String} (ha : Measured [a]) (hb : Measured [b])
    {x y : List UInt8} (h : header a ++ x = header b ++ y) : a = b ∧ x = y := by
  obtain ⟨hname, hcount, hvalues⟩ := ha a List.mem_cons_self
  obtain ⟨hname', hcount', hvalues'⟩ := hb b List.mem_cons_self
  unfold header at h
  simp only [List.append_assoc] at h
  obtain ⟨names, hrest⟩ := framed_append_inj hname hname' h
  obtain ⟨counts, hrest⟩ := word_append_inj hcount hcount' hrest
  obtain ⟨values, hxy⟩ := framedAll_append_inj counts hvalues hvalues' hrest
  exact ⟨Prod.ext names values, hxy⟩

theorem header_ne_nil (a : String × List String) : header a ≠ [] := by
  intro h
  have hlength := congrArg List.length h
  unfold header at hlength
  rw [framed_eq, List.length_append, List.length_append, List.length_append] at hlength
  unfold word at hlength
  rw [Sha256.bigEndian_length] at hlength
  exact absurd hlength (by simp)

theorem Measured.cons {a : String × List String} {headers : Headers} (h : Measured (a :: headers)) :
    Measured [a] ∧ Measured headers :=
  ⟨fun x hx => h x (List.mem_cons.mpr (Or.inl (List.mem_singleton.mp hx))),
    fun x hx => h x (List.mem_cons_of_mem _ hx)⟩

/-- **No two header lists have the same bytes.**  Of any two lists whose lengths fit, in order or not,
the bytes that are hashed are equal just if the lists are. -/
theorem preimage_exact {a b : Headers} (ha : Measured a) (hb : Measured b) :
    preimage a = preimage b ↔ a = b := by
  refine ⟨fun h => ?_, congrArg preimage⟩
  unfold preimage at h
  induction a generalizing b with
  | nil =>
    cases b with
    | nil => rfl
    | cons c b =>
      rw [List.flatMap_cons] at h
      exact absurd (List.append_eq_nil_iff.mp h.symm).1 (header_ne_nil c)
  | cons c a ih =>
    cases b with
    | nil =>
      rw [List.flatMap_cons] at h
      exact absurd (List.append_eq_nil_iff.mp h).1 (header_ne_nil c)
    | cons d b =>
      rw [List.flatMap_cons, List.flatMap_cons] at h
      obtain ⟨rfl, hrest⟩ := header_append_inj ha.cons.1 hb.cons.1 h
      rw [ih ha.cons.2 hb.cons.2 hrest]

/-- a byte that moves from a value to the name before it, with a header behind them -/
theorem preimage_exact_shifted :
    let a : Headers := [("a", ["bc"]), ("", [])]
    let b : Headers := [("ab", ["c"]), ("", [])]
    Measured a ∧ Measured b ∧ (preimage a).length = (preimage b).length ∧
      preimage a ≠ preimage b := by
  intro a b
  have ha : Measured a := by decide
  have hb : Measured b := by decide
  refine ⟨ha, hb, by decide +kernel, fun h => ?_⟩
  exact absurd ((preimage_exact ha hb).mp h) (by decide)

end HeaderDigest

end Coalesce
