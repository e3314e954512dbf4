import Coalesce.Proofs.Batch.Renaming
import Coalesce.Proofs.Batch.Strategy
import Coalesce.Proofs.FirstReads

/-!
# Batches of callers

* `Registry.cut_eq`           the walk that asks on the way is the one that has all tokens from the
                              start;
* `Grouping.byContext`        the requests of a window by their contexts, without any tokens;
* `Registry.Issued`           tokens belong to contexts, each to one;
* `Registry.issued`           as long as there are no more of them than words;
* `Registry.cut_by_context`   so the batches are those by contexts, whatever was read before.

Asking settles states, and tokens are issued while the walk goes on.  An item is placed by the token
of its own context only, which is settled by then and stays.
-/

namespace Coalesce

namespace Grouping

def byContext (maxSize : Nat) : Grouping Registry.Waiting Nat OperationKind where
  key w := w.context
  series w := w.kind
  maxSize := sizeBound maxSize

theorem byContext_lawful (maxSize : Nat) : (byContext maxSize).Lawful := by
  intro same h
  cases h

theorem byContext_alike (maxSize : Nat) (v w : Registry.Waiting) :
    (byContext maxSize).alike v w = true ↔ v.context = w.context := by
  rw [alike_iff]
  exact and_iff_left fun same h => by cases h

section
variable {α κ σ : Type} [DecidableEq κ] [DecidableEq σ]

/-- An item is placed by its own key. -/
theorem place_congr {g g' : Grouping α κ σ} {e : Entry α} (key : g.key e.value = g'.key e.value)
    (series : g.series e.value = g'.series e.value) (equality : g.equality = g'.equality)
    (maxSize : g.maxSize = g'.maxSize) (p : Progress α κ σ) : g.place p e = g'.place p e := by
  have haccepts : g.accepts p.batches e.value = g'.accepts p.batches e.value := by
    funext slot
    unfold accepts
    rw [key, equality]
  have hfull : g.isFull = g'.isFull := by
    unfold isFull
    rw [maxSize]
  unfold place
  rw [haccepts, hfull, key, series]

end

end Grouping

namespace Registry

section
variable {hash : List UInt8 → List UInt8} {r : Registry}

theorem word?_run {k : Nat} {v : UInt64} (h : r.word? k = some v) (es : List Event) :
    (run hash r es).word? k = some v := by
  obtain ⟨t, ht, rfl⟩ := Option.map_eq_some_iff.mp h
  unfold word?
  rw [token?_run ht es]
  rfl

variable (hash) in
/-- Who was asked has a token. -/
theorem word?_ask {k : Nat} (present : k < r.contexts.length) :
    ∃ v, (r.step hash (.ask k)).word? k = some v := by
  obtain ⟨t, ht⟩ := token?_ask hash present
  refine ⟨.ofNat t, ?_⟩
  unfold word?
  rw [ht]
  rfl

/-- The walk that asks on the way is the one that has all tokens from the start. -/
theorem visits (maxSize : Nat) (es : List (Entry Waiting))
    (present : ∀ e ∈ es, e.value.context < r.contexts.length)
    (p : Grouping.Progress Waiting (Option UInt64) OperationKind) :
    let last := run hash r (es.map fun e => .ask e.value.context)
    es.foldl (visit hash maxSize) (r, p) = (last, es.foldl (last.byWord maxSize).place p) := by
  induction es generalizing r p with
  | nil => rfl
  | cons e rest ih =>
    intro last
    have hpresent : ∀ x ∈ rest, x.value.context
        < (r.step hash (.ask e.value.context)).contexts.length := fun x hx =>
      Nat.lt_of_lt_of_le (present x (List.mem_cons_of_mem _ hx)) (contexts_length_step hash r _)
    -- the token of the first one is there once it is asked, and stays
    obtain ⟨v, hv⟩ := word?_ask hash (present e List.mem_cons_self)
    have hkey : (r.step hash (.ask e.value.context)).word? e.value.context
        = last.word? e.value.context := by
      rw [hv]
      exact (word?_run hv (rest.map fun e => .ask e.value.context)).symm
    have hplace : ((r.step hash (.ask e.value.context)).byWord maxSize).place p e
        = (last.byWord maxSize).place p e := by
      refine Grouping.place_congr ?_ ?_ ?_ ?_ p
      · exact hkey
      all_goals rfl
    rw [List.foldl_cons, List.foldl_cons, ← hplace]
    exact ih hpresent _

theorem cut_eq (maxSize : Nat) {window : List Waiting}
    (present : ∀ w ∈ window, w.context < r.contexts.length) :
    let last := run hash r (reads window)
    cut hash maxSize r window = (last, (last.byWord maxSize).partition window) := by
  intro last
  by_cases hlong : window.length ≤ 1
  · have hlast : last = r := by
      show run hash r (reads window) = r
      unfold reads
      rw [if_pos hlong]
      rfl
    have hes : (entries window).length ≤ 1 := by rwa [entries_length]
    unfold cut Grouping.partition
    dsimp only
    rw [if_pos hes, if_pos hes, hlast]
  · have hlast : last = run hash r ((entries window).map fun e => .ask e.value.context) := by
      show run hash r (reads window) = _
      unfold reads
      rw [if_neg hlong]
      conv_lhs => rw [← entries_values window, List.map_map]
      rfl
    have hes : ¬ (entries window).length ≤ 1 := by rwa [entries_length]
    rw [Grouping.partition_eq_walk _ rfl, hlast]
    unfold cut
    dsimp only
    rw [if_neg hes, visits maxSize _ (fun e he => present _ (List.mem_of_getElem? (mem_entries.mp he)))]
    rfl

/-! ## who is told apart -/

/-- Tokens that fit into 64 bits are as good as they are. -/
theorem word?_inj (numbered : r.Numbered) (few : r.nextToken ≤ 2 ^ 64) {j k : Nat} {v : UInt64}
    (hj : r.word? j = some v) (hk : r.word? k = some v) : j = k := by
  obtain ⟨t, ht, rfl⟩ := Option.map_eq_some_iff.mp hj
  obtain ⟨u, hu, huv⟩ := Option.map_eq_some_iff.mp hk
  have htfit : t < 2 ^ 64 := Nat.lt_of_lt_of_le (numbered.token?_lt ht) few
  have hufit : u < 2 ^ 64 := Nat.lt_of_lt_of_le (numbered.token?_lt hu) few
  have hut : u = t := by
    have h := congrArg UInt64.toNat huv
    rwa [UInt64.toNat_ofNat_of_lt' hufit, UInt64.toNat_ofNat_of_lt' htfit] at h
  subst hut
  exact numbered.token?_inj ht hu

theorem agrees_byContext {κ : Type} [DecidableEq κ] {g : Grouping Waiting κ OperationKind}
    {maxSize : Nat} {window : List Waiting} (plain : g.equality = none)
    (series : ∀ w, g.series w = w.kind) (size : g.maxSize = Grouping.sizeBound maxSize)
    (clusters : g.clustering = none)
    (key : ∀ a ∈ window, ∀ b ∈ window, g.key a = g.key b ↔ a.context = b.context) :
    g.Agrees (Grouping.byContext maxSize) window where
  alike a ha b hb := by
    rw [Bool.eq_iff_iff, Grouping.byContext_alike, Grouping.alike_iff, plain, key a ha b hb]
    exact and_iff_left fun same h => by cases h
  series w _ := series w
  maxSize := size
  clustering := clusters

variable (hash) in
/-- Whoever is asked on the way over a window has a token behind it. -/
theorem word?_of_read {window : List Waiting} (hlong : ¬ window.length ≤ 1) {w : Waiting}
    (hw : w ∈ window) (present : w.context < r.contexts.length) :
    ∃ v, (run hash r (reads window)).word? w.context = some v := by
  have hasked : .ask w.context ∈ reads window := by
    unfold reads
    rw [if_neg hlong]
    exact List.mem_map_of_mem hw
  obtain ⟨t, ht⟩ := token?_of_asked hash hasked present
  exact ⟨.ofNat t, Option.map_eq_some_iff.mpr ⟨t, ht, rfl⟩⟩

theorem byWord_agrees (numbered : r.Numbered) {window : List Waiting} (maxSize : Nat)
    (present : ∀ w ∈ window, w.context < r.contexts.length)
    (few : (run hash r (reads window)).nextToken ≤ 2 ^ 64) :
    ((run hash r (reads window)).byWord maxSize).Agrees (Grouping.byContext maxSize) window := by
  refine agrees_byContext rfl (fun _ => rfl) rfl rfl fun a ha b hb => ⟨fun h => ?_, fun h => ?_⟩
  · by_cases hlong : window.length ≤ 1
    · -- nobody was asked, and there is nobody to be told apart
      obtain ⟨w, rfl⟩ := List.length_eq_one_iff.mp
        (Nat.le_antisymm hlong (List.length_pos_of_mem ha))
      rw [List.mem_singleton.mp ha, List.mem_singleton.mp hb]
    · obtain ⟨v, hv⟩ := word?_of_read hash hlong ha (present a ha)
      have hw : (run hash r (reads window)).word? b.context = some v := h.symm.trans hv
      exact word?_inj (numbered.run _) few hv hw
  · exact congrArg (run hash r (reads window)).word? h

theorem item_token {w : Waiting} {t : Nat} (h : r.token? w.context = some t) :
    (w.item hash r).caller.state.token = t := by
  obtain ⟨x, s, hx, hs, rfl⟩ := token?_eq_some h
  show ((r.contexts.getD w.context {}).caller hash r.nextToken).1.state.token = s.token
  rw [List.getD_eq_getElem?_getD, hx]
  show (x.caller hash r.nextToken).1.state.token = s.token
  unfold Context.caller Context.batchingState
  rw [hs]

theorem items_agree (numbered : r.Numbered) {window : List Waiting} (maxSize : Nat)
    (settled : ∀ w ∈ window, ∃ t, r.token? w.context = some t) :
    ((Grouping.byToken maxSize).comap (Waiting.item hash r)).Agrees
      (Grouping.byContext maxSize) window := by
  refine agrees_byContext rfl (fun _ => rfl) rfl rfl fun a ha b hb => ?_
  obtain ⟨t, ht⟩ := settled a ha
  obtain ⟨u, hu⟩ := settled b hb
  show (a.item hash r).caller.state.token = (b.item hash r).caller.state.token ↔ _
  rw [item_token ht, item_token hu]
  constructor
  · intro htu
    subst htu
    exact numbered.token?_inj ht hu
  · intro h
    rw [h, hu] at ht
    exact (Option.some.inj ht).symm

theorem cut_batches (numbered : r.Numbered) {window : List Waiting} (maxSize : Nat)
    (present : ∀ w ∈ window, w.context < r.contexts.length)
    (few : (run hash r (reads window)).nextToken ≤ 2 ^ 64) :
    (cut hash maxSize r window).2 = (Grouping.byContext maxSize).partition window := by
  rw [cut_eq maxSize present]
  exact (byWord_agrees numbered maxSize present few).partition

theorem word?_eq_some_iff {es : List Event} {k m : Nat} {v : UInt64} :
    (after hash es m).word? k = some v ↔
      ∃ n < m, FirstRead hash es k n ∧ v = .ofNat (after hash es n).nextToken := by
  constructor
  · intro hv
    obtain ⟨t, ht, rfl⟩ := Option.map_eq_some_iff.mp hv
    obtain ⟨n, hn, hread, rfl⟩ := token?_eq_some_iff.mp ht
    exact ⟨n, hn, hread, rfl⟩
  · rintro ⟨n, hn, hread, rfl⟩
    exact Option.map_eq_some_iff.mpr ⟨_, token?_eq_some_iff.mpr ⟨n, hn, hread, rfl⟩, rfl⟩

/-- Tokens belong to contexts: over a history, every one is issued at the first read of a context, which
has it from then on, alone. -/
structure Issued (hash : List UInt8 → List UInt8) (es : List Event) : Prop where
  first : ∀ k n, es[n]? = some (.ask k) → k < (after hash es n).contexts.length →
    ∃ m ≤ n, FirstRead hash es k m
  issues : ∀ k n, FirstRead hash es k n →
    (after hash es (n + 1)).nextToken = (after hash es n).nextToken + 1
  otherwise : ∀ n, (∀ k, ¬ FirstRead hash es k n) →
    (after hash es (n + 1)).nextToken = (after hash es n).nextToken
  word : ∀ k m v, (after hash es m).word? k = some v ↔
    ∃ n < m, FirstRead hash es k n ∧ v = .ofNat (after hash es n).nextToken
  stays : ∀ k m n v, m ≤ n → (after hash es m).word? k = some v → (after hash es n).word? k = some v
  apart : ∀ j k m v, (after hash es m).word? j = some v → (after hash es m).word? k = some v → j = k

theorem issued {es : List Event} (few : (run hash {} es).nextToken ≤ 2 ^ 64) : Issued hash es where
  first _ _ := exists_firstRead
  issues _ _ := FirstRead.issues
  otherwise _ := issues_nothing
  word _ _ _ := word?_eq_some_iff
  stays k m n v hmn hv := by
    obtain ⟨i, him, hread, rfl⟩ := word?_eq_some_iff.mp hv
    exact word?_eq_some_iff.mpr ⟨i, Nat.lt_of_lt_of_le him hmn, hread, rfl⟩
  apart j k m v hj hk := by
    have hfew : (after hash es m).nextToken ≤ 2 ^ 64 := by
      refine Nat.le_trans ?_ few
      rw [run_take hash es m]
      exact nextToken_le_run _
    exact word?_inj ((numbered_empty 1).run (es.take m)) hfew hj hk

theorem together_by_context (maxSize : Nat) (window : List Waiting) {x y : Entry Waiting}
    (hx : x ∈ entries window) (hy : y ∈ entries window) :
    (∃ b ∈ (Grouping.byContext maxSize).partition window, x ∈ b ∧ y ∈ b) ↔
      x.value.context = y.value.context ∧
      (Grouping.byContext maxSize).SameRun (entries window) x y ∧
      Grouping.block (some maxSize) ((Grouping.byContext maxSize).rank (entries window) x)
        = Grouping.block (some maxSize) ((Grouping.byContext maxSize).rank (entries window) y) := by
  have hexact : (Grouping.byContext maxSize).Exact (some maxSize) (entries window)
      ((entries window).foldl (Grouping.byContext maxSize).place .empty) :=
    Grouping.walk_exact (Grouping.byContext_lawful maxSize) rfl (entries_inOrder window)
  rw [(Grouping.byContext maxSize).partition_eq_walk rfl]
  refine (hexact.together_iff hx hy).trans ?_
  unfold Grouping.Mates
  rw [Grouping.byContext_alike]
  exact and_left_comm

end

/-- **The batches of one caller depend on who the callers are.**  Contexts are entered, changed and
read in any order, and then the requests of a window are cut by the tokens of their contexts, which
are asked for on the way.  No more tokens are issued than there are words for.

Tokens belong to contexts.  Every request is in one batch, once; two of them are together just if they
are of one context, in one run of equal kinds, and have ranks in one block, where a rank counts the
earlier requests of the context in the run.  So any other history makes the same batches, whatever
tokens it issues, and so does the strategy by callers with contexts that were all read before, in any
order. -/
theorem cut_by_context (hash : List UInt8 → List UInt8) (history : List Event)
    (window : List Waiting) (maxSize : Nat)
    (present : ∀ w ∈ window, w.context < (run hash {} history).contexts.length)
    (few : (run hash {} (history ++ reads window)).nextToken ≤ 2 ^ 64) :
    let g := Grouping.byContext maxSize
    let batches := (cut hash maxSize (run hash {} history) window).2
    (cut hash maxSize (run hash {} history) window).1 = run hash {} (history ++ reads window) ∧
    Issued hash (history ++ reads window) ∧
    batches.flatten.Perm (entries window) ∧
    (∀ x ∈ entries window, ∀ y ∈ entries window, (∃ b ∈ batches, x ∈ b ∧ y ∈ b) ↔
      x.value.context = y.value.context ∧ g.SameRun (entries window) x y ∧
        Grouping.block (some maxSize) (g.rank (entries window) x)
          = Grouping.block (some maxSize) (g.rank (entries window) y)) ∧
    (∀ (hash' : List UInt8 → List UInt8) (history' : List Event),
      (∀ w ∈ window, w.context < (run hash' {} history').contexts.length) →
      (run hash' {} (history' ++ reads window)).nextToken ≤ 2 ^ 64 →
        (cut hash' maxSize (run hash' {} history') window).2 = batches) ∧
    (∀ (hash' : List UInt8 → List UInt8) (es : List Event),
      (∀ w ∈ window, ∃ t, (run hash' {} es).token? w.context = some t) →
        (Strategy.byCaller.partition maxSize
          (window.map (Waiting.item hash' (run hash' {} es)))).map Batch.indices
            = batches.map Batch.indices) := by
  intro g batches
  have hbatches : ∀ (hash : List UInt8 → List UInt8) (history : List Event),
      (∀ w ∈ window, w.context < (run hash {} history).contexts.length) →
      (run hash {} (history ++ reads window)).nextToken ≤ 2 ^ 64 →
        (cut hash maxSize (run hash {} history) window).2 = g.partition window := by
    intro hash history present few
    rw [run_append] at few
    exact cut_batches ((numbered_empty 1).run history) maxSize present few
  have hcut : batches = g.partition window := hbatches hash history present few
  rw [hcut]
  refine ⟨?_, issued few, g.partition_perm window,
    fun x hx y hy => together_by_context maxSize window hx hy, hbatches, fun hash' es settled => ?_⟩
  · rw [cut_eq maxSize present, run_append]
  · exact (items_agree ((numbered_empty 1).run es) maxSize settled).indices rfl

/-- Two contexts get each other's tokens when the second one is read first. -/
theorem cut_by_context_swapped :
    let window : List Waiting := [⟨⟨"{ a }", none, none, none⟩, .query, 0, none⟩,
      ⟨⟨"{ b }", none, none, none⟩, .query, 1, none⟩, ⟨⟨"{ c }", none, none, none⟩, .query, 0, none⟩,
      ⟨⟨"{ d }", none, none, none⟩, .query, 0, none⟩]
    let unread : List Event := [.enter, .enter]
    let read : List Event := [.enter, .enter, .ask 1]
    (run Sha256.hash {} (unread ++ reads window)).word? 0 = some 1 ∧
    (run Sha256.hash {} (read ++ reads window)).word? 0 = some 2 ∧
    (cut Sha256.hash 2 (run Sha256.hash {} read) window).2
      = (cut Sha256.hash 2 (run Sha256.hash {} unread) window).2 := by
  intro window unread read
  obtain ⟨_, _, _, _, hsame, _⟩ :=
    cut_by_context Sha256.hash unread window 2 (by decide) (by decide)
  exact ⟨by decide, by decide, hsame Sha256.hash read (by decide) (by decide)⟩

end Registry

end Coalesce
