import Coalesce.Proofs.Registry
import Coalesce.Header.Sha256
import Mathlib.Data.Nat.Find

/-!
# First reads

* `Registry.after`                 the registry after so many events;
* `Registry.FirstRead`             a context is asked for its state, and was not asked before;
* `Registry.exists_firstRead`, `Registry.exists_firstRead_of_settled`
                                   who is asked, or has a state, has a first read;
* `Registry.FirstRead.unsettled`, `Registry.FirstRead.settled`
                                   up to there it has no state, and from there on it has the one that
                                   is computed there;
* `Registry.token?_eq_some_iff`    the token of a context is the one that is free at its first read;
* `Registry.state_of_first_read`   so every read answers with the headers of the first read, and with
                                   those of the moment as long as no headers are set in between.

Contexts may be changed in any order, also behind a read.  Nothing renews a state that is settled.
-/

namespace Coalesce

namespace Registry

def after (hash : List UInt8 → List UInt8) (es : List Event) (n : Nat) : Registry :=
  run hash {} (es.take n)

/-- Asking before the context is there does nothing, and does not count. -/
structure FirstRead (hash : List UInt8 → List UInt8) (es : List Event) (k n : Nat) : Prop where
  asked : es[n]? = some (.ask k)
  present : k < (after hash es n).contexts.length
  first : ∀ i < n, es[i]? = some (.ask k) → (after hash es i).contexts.length ≤ k

section
variable {hash : List UInt8 → List UInt8} {es : List Event} {k n : Nat}

theorem after_succ {e : Event} (h : es[n]? = some e) :
    after hash es (n + 1) = (after hash es n).step hash e := by
  unfold after
  rw [List.take_add_one, h, run_append]
  rfl

theorem after_succ_none (h : es[n]? = none) : after hash es (n + 1) = after hash es n := by
  unfold after
  rw [List.take_add_one, h]
  exact congrArg (run hash {}) (List.append_nil _)

theorem after_add (n m : Nat) :
    after hash es (n + m) = run hash (after hash es n) ((es.drop n).take m) := by
  unfold after
  rw [← run_append, List.take_add]

/-- Whoever is asked was asked for the first time before, or is now. -/
theorem exists_firstRead (asked : es[n]? = some (.ask k))
    (present : k < (after hash es n).contexts.length) : ∃ m ≤ n, FirstRead hash es k m := by
  have hfound : ∃ m, es[m]? = some (.ask k) ∧ k < (after hash es m).contexts.length :=
    ⟨n, asked, present⟩
  classical
  obtain ⟨hasked, hpresent⟩ := Nat.find_spec hfound
  refine ⟨Nat.find hfound, Nat.find_min' hfound ⟨asked, present⟩, hasked, hpresent, ?_⟩
  intro i hi hasked'
  by_contra hlate
  exact Nat.find_min hfound hi ⟨hasked', Nat.not_le.mp hlate⟩

theorem contexts_length_step (hash : List UInt8 → List UInt8) (r : Registry) (e : Event) :
    r.contexts.length ≤ (r.step hash e).contexts.length := by
  cases e with
  | enter =>
    show r.contexts.length ≤ (r.contexts ++ [({} : Context)]).length
    rw [List.length_append]
    omega
  | withHeaders i headers => exact Nat.le_of_eq (List.length_modify ..).symm
  | withHeader i name value => exact Nat.le_of_eq (List.length_modify ..).symm
  | withDeadline i deadline => exact Nat.le_of_eq (List.length_modify ..).symm
  | ask i =>
    unfold step
    dsimp only
    split
    · exact Nat.le_of_eq (List.length_set ..).symm
    · exact Nat.le_refl _

/-- Only contexts that are there are asked. -/
theorem present_of_settles {r : Registry} {x : Context} {s : BatchingState}
    (hx : (r.step hash (.ask k)).contexts[k]? = some x) (hs : x.settled = some s) :
    k < r.contexts.length := by
  obtain hstep | ⟨_, hstep⟩ := step_getElem? hash r (.ask k) k
  · rw [hx] at hstep
    obtain ⟨y, hy, _⟩ := Option.map_eq_some_iff.mp hstep.symm
    exact (List.getElem?_eq_some_iff.mp hy).1
  · rw [hx] at hstep
    cases hstep
    cases hs

/-- Who has a state was asked for it. -/
theorem exists_firstRead_of_settled {m : Nat} {x : Context} {s : BatchingState}
    (hx : (after hash es m).contexts[k]? = some x) (hs : x.settled = some s) :
    ∃ n < m, FirstRead hash es k n := by
  induction m generalizing x with
  | zero => exact absurd hx (by simp [after, run])
  | succ m ih =>
    cases he : es[m]? with
    | none =>
      rw [after_succ_none he] at hx
      obtain ⟨n, hn, hread⟩ := ih hx hs
      exact ⟨n, Nat.lt_succ_of_lt hn, hread⟩
    | some e =>
      rw [after_succ he] at hx
      obtain ⟨y, hy, hys⟩ | ⟨rfl, _⟩ := settled_from hx hs
      · obtain ⟨n, hn, hread⟩ := ih hy hys
        exact ⟨n, Nat.lt_succ_of_lt hn, hread⟩
      · obtain ⟨n, hn, hread⟩ := exists_firstRead he (present_of_settles hx hs)
        exact ⟨n, Nat.lt_succ_of_le hn, hread⟩

theorem contexts_length_mono {m : Nat} (hm : m ≤ n) :
    (after hash es m).contexts.length ≤ (after hash es n).contexts.length := by
  induction n, hm using Nat.le_induction with
  | base => exact Nat.le_refl _
  | succ n _ ih =>
    cases he : es[n]? with
    | none => rwa [after_succ_none he]
    | some e =>
      rw [after_succ he]
      exact Nat.le_trans ih (contexts_length_step hash _ e)

namespace FirstRead

theorem context (h : FirstRead hash es k n) :
    ∃ first, (after hash es n).contexts[k]? = some first :=
  ⟨_, List.getElem?_eq_getElem h.present⟩

/-- Up to its first read a context has no state. -/
theorem unsettled (h : FirstRead hash es k n) {m : Nat} (hm : m ≤ n) {x : Context}
    (hx : (after hash es m).contexts[k]? = some x) : x.settled = none := by
  induction m generalizing x with
  | zero => exact absurd hx (by simp [after, run])
  | succ m ih =>
    cases he : es[m]? with
    | none =>
      rw [after_succ_none he] at hx
      exact ih (by omega) hx
    | some e =>
      rw [after_succ he] at hx
      cases hs : x.settled with
      | none => rfl
      | some s =>
        -- a state that is there now was there, or the context is asked for it
        obtain ⟨y, hy, hys⟩ | ⟨rfl, _⟩ := settled_from hx hs
        · rw [ih (by omega) hy] at hys
          cases hys
        · exact absurd (h.first m (by omega) he) (Nat.not_le.mpr (present_of_settles hx hs))

/-- From its first read on a context has the state that is computed there. -/
theorem settled (h : FirstRead hash es k n) {m : Nat} (hm : n < m) :
    ∃ first x, (after hash es n).contexts[k]? = some first ∧
      (after hash es m).contexts[k]? = some x ∧
      x.settled = some (.compute hash (after hash es n).nextToken first.headers) := by
  obtain ⟨first, hfirst⟩ := h.context
  obtain ⟨y, hy, hys⟩ : ∃ y, (after hash es (n + 1)).contexts[k]? = some y ∧
      y.settled = some (.compute hash (after hash es n).nextToken first.headers) := by
    rw [after_succ h.asked]
    obtain hstep | ⟨hnone, _⟩ := step_getElem? hash (after hash es n) (.ask k) k
    · rw [hfirst] at hstep
      refine ⟨_, hstep, ?_⟩
      unfold Event.apply Context.batchingState
      dsimp only
      rw [if_pos rfl, h.unsettled (Nat.le_refl n) hfirst]
    · rw [hfirst] at hnone
      cases hnone
  obtain ⟨x, hx, hxs⟩ := @run_settled hash _ ((es.drop (n + 1)).take (m - (n + 1))) k y _ hy hys
  rw [← after_add, Nat.add_sub_cancel' hm] at hx
  exact ⟨first, x, hfirst, hx, hxs⟩

/-- It issues a token. -/
theorem issues (h : FirstRead hash es k n) :
    (after hash es (n + 1)).nextToken = (after hash es n).nextToken + 1 := by
  obtain ⟨first, hfirst⟩ := h.context
  rw [after_succ h.asked]
  exact nextToken_ask hfirst (h.unsettled (Nat.le_refl n) hfirst)

end FirstRead

theorem nextToken_step {r : Registry} {e : Event}
    (h : ∀ k x, e = .ask k → r.contexts[k]? = some x → x.settled ≠ none) :
    (r.step hash e).nextToken = r.nextToken := by
  cases e with
  | ask k =>
    unfold step
    dsimp only
    split
    · rename_i x hx
      obtain ⟨s, hs⟩ := Option.ne_none_iff_exists'.mp (h k x rfl hx)
      unfold Context.batchingState
      rw [hs]
    · rfl
  | _ => rfl

/-- Nothing else does. -/
theorem issues_nothing (h : ∀ k, ¬ FirstRead hash es k n) :
    (after hash es (n + 1)).nextToken = (after hash es n).nextToken := by
  cases he : es[n]? with
  | none => rw [after_succ_none he]
  | some e =>
    rw [after_succ he]
    refine nextToken_step fun k x hask hx hnone => ?_
    subst hask
    -- whoever is asked, but not for the first time, has a state
    obtain ⟨m, hm, hread⟩ := exists_firstRead he (List.getElem?_eq_some_iff.mp hx).1
    obtain rfl | hlt := Nat.eq_or_lt_of_le hm
    · exact h k hread
    · obtain ⟨_, y, _, hy, hys⟩ := hread.settled hlt
      rw [hx] at hy
      cases hy
      rw [hnone] at hys
      cases hys

/-! ## tokens -/

theorem token?_eq_some {r : Registry} {t : Nat} (h : r.token? k = some t) :
    ∃ x s, r.contexts[k]? = some x ∧ x.settled = some s ∧ s.token = t := by
  obtain ⟨x, hx, hxt⟩ := Option.bind_eq_some_iff.mp h
  obtain ⟨s, hs, hst⟩ := Option.map_eq_some_iff.mp hxt
  exact ⟨x, s, hx, hs, hst⟩

theorem token?_settled {r : Registry} {x : Context} {s : BatchingState}
    (hx : r.contexts[k]? = some x) (hs : x.settled = some s) : r.token? k = some s.token := by
  unfold token?
  rw [hx]
  show x.settled.map BatchingState.token = some s.token
  rw [hs]
  rfl

/-- The token of a context is the one that is free at its first read. -/
theorem token?_eq_some_iff {m t : Nat} :
    (after hash es m).token? k = some t ↔
      ∃ n < m, FirstRead hash es k n ∧ t = (after hash es n).nextToken := by
  have hissued : ∀ n < m, FirstRead hash es k n →
      (after hash es m).token? k = some (after hash es n).nextToken := fun n hn hread => by
    obtain ⟨_, x, _, hx, hxs⟩ := hread.settled hn
    exact token?_settled hx hxs
  constructor
  · intro ht
    obtain ⟨x, s, hx, hs, _⟩ := token?_eq_some ht
    obtain ⟨n, hn, hread⟩ := exists_firstRead_of_settled hx hs
    rw [hissued n hn hread] at ht
    exact ⟨n, hn, hread, (Option.some.inj ht).symm⟩
  · rintro ⟨n, hn, hread, rfl⟩
    exact hissued n hn hread

variable (hash) in
theorem token?_ask {r : Registry} (present : k < r.contexts.length) :
    ∃ t, (r.step hash (.ask k)).token? k = some t := by
  obtain ⟨x, hx⟩ : ∃ x, r.contexts[k]? = some x := ⟨_, List.getElem?_eq_getElem present⟩
  obtain hstep | ⟨hnone, _⟩ := step_getElem? hash r (.ask k) k
  · rw [hx] at hstep
    have hsettled : ∃ s, (Event.apply hash r.nextToken (.ask k) k x).settled = some s := by
      unfold Event.apply Context.batchingState
      dsimp only
      rw [if_pos rfl]
      cases hs : x.settled with
      | none => exact ⟨_, rfl⟩
      | some s => exact ⟨s, hs⟩
    obtain ⟨s, hs⟩ := hsettled
    exact ⟨s.token, token?_settled hstep hs⟩
  · rw [hx] at hnone
    cases hnone

theorem token?_run {r : Registry} {t : Nat} (h : r.token? k = some t) (es : List Event) :
    (run hash r es).token? k = some t := by
  obtain ⟨x, s, hx, hs, rfl⟩ := token?_eq_some h
  obtain ⟨y, hy, hys⟩ := @run_settled hash r es k x s hx hs
  exact token?_settled hy hys

variable (hash) in
/-- Whoever is asked on the way has a token in the end. -/
theorem token?_of_asked {r : Registry} {es : List Event} (asked : .ask k ∈ es)
    (present : k < r.contexts.length) : ∃ t, (run hash r es).token? k = some t := by
  induction es generalizing r with
  | nil => exact absurd asked List.not_mem_nil
  | cons e rest ih =>
    rcases List.mem_cons.mp asked with rfl | hrest
    · obtain ⟨t, ht⟩ := token?_ask hash present
      exact ⟨t, token?_run ht rest⟩
    · exact ih hrest (Nat.lt_of_lt_of_le present (contexts_length_step hash r e))

/-- One token, one context. -/
theorem Numbered.token?_inj {r : Registry} (h : r.Numbered) {i j t : Nat}
    (hi : r.token? i = some t) (hj : r.token? j = some t) : i = j := by
  obtain ⟨x, s, hx, hs, rfl⟩ := token?_eq_some hi
  obtain ⟨y, u, hy, hu, hut⟩ := token?_eq_some hj
  exact h.distinct i j x y s u hx hy hs hu hut.symm

theorem Numbered.token?_lt {r : Registry} (h : r.Numbered) {t : Nat} (ht : r.token? k = some t) :
    t < r.nextToken := by
  obtain ⟨x, s, hx, hs, rfl⟩ := token?_eq_some ht
  exact h.below k x s hx hs

theorem nextToken_le_run {r : Registry} (es : List Event) :
    r.nextToken ≤ (run hash r es).nextToken := by
  induction es generalizing r with
  | nil => exact Nat.le_refl _
  | cons e rest ih => exact Nat.le_trans nextToken_le_step ih

/-! ## headers since then -/

theorem apply_headers (hash : List UInt8 → List UInt8) (token : Nat) {e : Event} {k : Nat}
    (h : e.sets? ≠ some k) (x : Context) : (e.apply hash token k x).headers = x.headers := by
  have other : ∀ i, e.sets? = some i → ¬ i = k := fun i hi hik => h (hik ▸ hi)
  unfold Event.apply
  cases e with
  | enter => rfl
  | withHeaders i headers =>
    dsimp only
    rw [if_neg (other i rfl)]
  | withHeader i name value =>
    dsimp only
    rw [if_neg (other i rfl)]
  | withDeadline i deadline =>
    dsimp only
    split <;> rfl
  | ask i =>
    dsimp only
    split
    · unfold Context.batchingState
      split <;> rfl
    · rfl

/-- Headers that are not set stay. -/
theorem headers_kept {m : Nat} (hm : m ≤ n) {first x : Context}
    (hfirst : (after hash es m).contexts[k]? = some first)
    (hx : (after hash es n).contexts[k]? = some x)
    (unset : ∀ i e, m ≤ i → i < n → es[i]? = some e → e.sets? ≠ some k) :
    x.headers = first.headers := by
  induction n, hm using Nat.le_induction generalizing x with
  | base =>
    rw [hfirst] at hx
    rw [Option.some.inj hx]
  | succ n hmn ih =>
    have hbefore : ∀ i e, m ≤ i → i < n → es[i]? = some e → e.sets? ≠ some k := fun i e hi hin =>
      unset i e hi (Nat.lt_succ_of_lt hin)
    cases he : es[n]? with
    | none =>
      rw [after_succ_none he] at hx
      exact ih hx hbefore
    | some e =>
      rw [after_succ he] at hx
      obtain hstep | ⟨hnone, _⟩ := step_getElem? hash (after hash es n) e k
      · rw [hx] at hstep
        obtain ⟨y, hy, rfl⟩ := Option.map_eq_some_iff.mp hstep.symm
        rw [apply_headers hash _ (unset n e hmn (Nat.lt_succ_self n) he)]
        exact ih hy hbefore
      · -- it was there before
        have hlength : k < (after hash es m).contexts.length :=
          (List.getElem?_eq_some_iff.mp hfirst).1
        have hmono : _ ≤ (after hash es n).contexts.length := contexts_length_mono hmn
        rw [List.getElem?_eq_none_iff] at hnone
        omega

theorem FirstRead.state {m : Nat} (h : FirstRead hash es k m) (hm : m ≤ n) {first x : Context}
    (hfirst : (after hash es m).contexts[k]? = some first)
    (hx : (after hash es n).contexts[k]? = some x) :
    (x.batchingState hash (after hash es n).nextToken).1
      = .compute hash (after hash es m).nextToken first.headers := by
  unfold Context.batchingState
  rcases Nat.eq_or_lt_of_le hm with rfl | hlt
  · rw [hfirst] at hx
    cases hx
    rw [h.unsettled (Nat.le_refl m) hfirst]
  · obtain ⟨first', y, hfirst', hy, hys⟩ := h.settled hlt
    rw [hx] at hy
    cases hy
    rw [hfirst] at hfirst'
    cases hfirst'
    rw [hys]

/-- **Every read answers with the headers of the first.**  Contexts may be entered, changed and read
in any order.  At every read of a context, its state has the comparable headers that the context had
at its first read, and their digest.  So it describes the headers of the moment just if these are
comparable as they were, and always if none were set since the first read. -/
theorem state_of_first_read {x : Context} (asked : es[n]? = some (.ask k))
    (present : (after hash es n).contexts[k]? = some x) :
    let state := (x.batchingState hash (after hash es n).nextToken).1
    ∃ m first, m ≤ n ∧ FirstRead hash es k m ∧ (after hash es m).contexts[k]? = some first ∧
      state.headers = first.headers.comparable ∧
      state.digest = .of hash first.headers.comparable ∧
      (state.headers = x.headers.comparable ↔
        x.headers.comparable = first.headers.comparable) ∧
      ((∀ i e, m < i → i < n → es[i]? = some e → e.sets? ≠ some k) →
        state.headers = x.headers.comparable ∧ state.digest = .of hash x.headers.comparable) := by
  intro state
  have hlength : k < (after hash es n).contexts.length := (List.getElem?_eq_some_iff.mp present).1
  obtain ⟨m, hm, hread⟩ := exists_firstRead asked hlength
  obtain ⟨first, hfirst⟩ := hread.context
  have hstate : state = .compute hash (after hash es m).nextToken first.headers :=
    hread.state hm hfirst present
  have hheaders : state.headers = first.headers.comparable := by
    rw [hstate]
    rfl
  have hdigest : state.digest = .of hash first.headers.comparable := by
    rw [hstate]
    rfl
  refine ⟨m, first, hm, hread, hfirst, hheaders, hdigest, ?_, fun unset => ?_⟩
  · rw [hheaders]
    exact eq_comm
  · have hsame : x.headers = first.headers := by
      refine headers_kept hm hfirst present fun i e hmi hin hi => ?_
      rcases Nat.eq_or_lt_of_le hmi with rfl | hlt
      · -- the first read itself
        rw [hread.asked] at hi
        cases hi
        exact fun h => by cases h
      · exact unset i e hlt hin hi
    rw [hsame]
    exact ⟨hheaders, hdigest⟩

/-- Headers that come behind the first read are forwarded, and the state does not have them. -/
theorem late_headers_unseen :
    ¬ ∀ (hash : List UInt8 → List UInt8) (es : List Event) (n k : Nat) (x : Context),
      es[n]? = some (.ask k) → (after hash es n).contexts[k]? = some x →
        (x.batchingState hash (after hash es n).nextToken).1.headers = x.headers.comparable ∧
        (x.batchingState hash (after hash es n).nextToken).1.digest
          = .of hash x.headers.comparable := by
  intro described
  have hlate := (described Sha256.hash
    [.enter, .withHeader 0 "authorization" "a", .ask 0, .withHeader 0 "x-tenant" "t", .ask 0] 4 0
    _ rfl rfl).1
  revert hlate
  decide

/-- A context is read, gets a deadline while another one gets headers, and is read again. -/
theorem state_of_first_read_again :
    let es : List Event := [.enter, .withHeader 0 "Authorization" "a", .ask 0, .enter,
      .withHeader 1 "authorization" "b", .withDeadline 0 7, .ask 0]
    let x : Context := ((after Sha256.hash es 6).contexts[0]?).getD {}
    let state := (x.batchingState Sha256.hash (after Sha256.hash es 6).nextToken).1
    (∃ m ≤ 6, FirstRead Sha256.hash es 0 m) ∧ state.headers = x.headers.comparable ∧
      state.digest = .of Sha256.hash x.headers.comparable := by
  intro es x state
  obtain ⟨m, first, hm, hread, _, _, _, _, hnow⟩ :=
    @state_of_first_read Sha256.hash es 0 6 x rfl rfl
  refine ⟨⟨m, hm, hread⟩, hnow fun i e hmi hi he => ?_⟩
  -- its headers were set before it was read at all
  have hlate : 2 < i := by
    have hasked : es[m]? = some (.ask 0) := hread.asked
    by_contra hle
    obtain rfl | rfl : m = 0 ∨ m = 1 := by omega
    · cases hasked
    · cases hasked
  obtain rfl | rfl | rfl : i = 3 ∨ i = 4 ∨ i = 5 := by omega
  all_goals
    cases he
    decide

end

end Registry

end Coalesce
