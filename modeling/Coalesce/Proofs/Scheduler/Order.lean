import Coalesce.Proofs.Batch.Order
import Coalesce.Proofs.Scheduler.Custody

/-!
# The order of requests

* `Scheduler.batches_filter`    the batches of a window list the requests that might share a call in
                                the order of the window;
* `Scheduler.State.upcoming`    what is still to be cut into batches, in order;
* `Scheduler.History.in_order`  what was formed and what is upcoming are in the order of arrival, as
                                far as they might share a call;
* `Scheduler.History.not_overtaken`
                                no request is served before an earlier one that it might share a
                                call with.

Requests that may not share a call overtake each other: a batch is served as a whole, and it may
hold a request that comes after all those of a later batch.
-/

namespace Coalesce

/-! ## pairs in a list -/

theorem pair_sublist {α : Type} {l : List α} {a b : α} :
    [a, b].Sublist l ↔ ∃ i j : Nat, i < j ∧ l[i]? = some a ∧ l[j]? = some b := by
  induction l with
  | nil =>
    refine ⟨fun h => ?_, fun ⟨i, j, _, hi, _⟩ => ?_⟩
    · cases h
    · rw [List.getElem?_nil] at hi
      cases hi
  | cons x rest ih =>
    constructor
    · intro h
      rcases List.sublist_cons_iff.mp h with h | ⟨tail, htail, h⟩
      · obtain ⟨i, j, hij, hi, hj⟩ := ih.mp h
        exact ⟨i + 1, j + 1, Nat.succ_lt_succ hij, hi, hj⟩
      · cases htail
        obtain ⟨j, hj⟩ := List.mem_iff_getElem?.mp (List.singleton_sublist.mp h)
        exact ⟨0, j + 1, Nat.succ_pos j, rfl, hj⟩
    · rintro ⟨i, j, hij, hi, hj⟩
      obtain ⟨j, rfl⟩ : ∃ j', j = j' + 1 := ⟨j - 1, by omega⟩
      cases i with
      | zero =>
        cases Option.some.inj hi
        have hb : b ∈ rest := List.mem_of_getElem? hj
        exact (List.singleton_sublist.mpr hb).cons_cons a
      | succ i => exact (ih.mpr ⟨i, j, Nat.lt_of_succ_lt_succ hij, hi, hj⟩).cons x

theorem pair_not_swapped {α : Type} {l : List α} (h : l.Nodup) {a b : α}
    (hab : [a, b].Sublist l) : ¬ [b, a].Sublist l := by
  intro hba
  obtain ⟨i, j, hij, hi, hj⟩ := pair_sublist.mp hab
  obtain ⟨k, m, hkm, hk, hm⟩ := pair_sublist.mp hba
  have him : i = m :=
    (List.getElem?_inj (List.getElem?_eq_some_iff.mp hi).1 h).mp (hi.trans hm.symm)
  have hjk : j = k :=
    (List.getElem?_inj (List.getElem?_eq_some_iff.mp hj).1 h).mp (hj.trans hk.symm)
  omega

namespace Scheduler

/-! ## one window -/

theorem sift_sublist (c : Scheduler) (now : Int) (s : State) (items : List Pending) :
    (c.sift now s items).1.Sublist items := by
  induction items with
  | nil => exact List.Sublist.refl _
  | cons p rest ih =>
    unfold sift
    dsimp only
    split
    · exact ih.cons p
    · split
      · exact ih.cons_cons p
      · exact ih.cons p

theorem batches_filter (c : Scheduler) (live : List Pending) (a : Item) :
    ((c.batches live).flatten.filter fun p => c.settings.strategy.same a p.item)
      = live.filter fun p => c.settings.strategy.same a p.item := by
  let items := live.map (·.item)
  let get (e : Entry Item) : Option Pending := live[e.index]?
  -- an entry has the item of its request
  have hvalue : ∀ e ∈ entries items, ∀ p ∈ get e, e.value = p.item := by
    intro e he p hp
    have hget : items[e.index]? = some e.value := mem_entries.mp he
    have hlive : live[e.index]? = some p := hp
    rw [List.getElem?_map, hlive] at hget
    exact (Option.some.inj hget).symm
  have hfilter : ∀ es : List (Entry Item), (∀ e ∈ es, e ∈ entries items) →
      ((es.filterMap get).filter fun p => c.settings.strategy.same a p.item)
        = (es.filter fun e => c.settings.strategy.same a e.value).filterMap get := by
    intro es hes
    rw [List.filter_filterMap, List.filterMap_filter]
    refine List.filterMap_congr fun e he => ?_
    cases hg : get e with
    | none => simp
    | some p =>
      rw [hvalue e (hes e he) p hg]
      simp [Option.filter]
  have hmem : ∀ e ∈ (c.settings.strategy.partition c.settings.maxSize items).flatten,
      e ∈ entries items := fun e he =>
    (c.settings.strategy.partition_perm c.settings.maxSize items).mem_iff.mp he
  have hall : (entries items).filterMap get = live := by
    have hindices : (entries items).filterMap get
        = ((entries items).map Entry.index).filterMap fun i => live[i]? := by
      rw [List.filterMap_map]
      rfl
    rw [hindices, entries_indices, List.length_map, range_filterMap]
  have hflat : (c.batches live).flatten
      = (c.settings.strategy.partition c.settings.maxSize items).flatten.filterMap get := by
    unfold batches
    rw [List.filterMap_flatten]
    refine congrArg List.flatten (List.map_congr_left fun b _ => ?_)
    unfold Batch.indices
    rw [List.filterMap_map]
    rfl
  calc ((c.batches live).flatten.filter fun p => c.settings.strategy.same a p.item)
      = ((c.settings.strategy.partition c.settings.maxSize items).flatten.filter fun e =>
          c.settings.strategy.same a e.value).filterMap get := by
        rw [hflat, hfilter _ hmem]
    _ = ((entries items).filter fun e => c.settings.strategy.same a e.value).filterMap get := by
        rw [Strategy.partition_filter]
    _ = live.filter fun p => c.settings.strategy.same a p.item := by
        rw [← hfilter _ fun e he => he, hall]

/-! ## all windows -/

/-- what is still to be cut into batches: the flushed windows, and then the open one -/
def State.upcoming (s : State) : List Pending := s.queue.flatMap Flush.items ++ s.pending

theorem History.in_order {c : Scheduler} {past : List Moment} {s : State} {effects : List Effect}
    (h : c.History past s effects) (a : Item) :
    (((c.formed past).flatten ++ s.upcoming).filter fun p =>
      c.settings.strategy.same a p.item).Sublist (arrivals past) := by
  induction h using History.by_changes with
  | start => exact List.Sublist.refl _
  | next past s effects e s' more h _ change ih =>
    -- nothing is formed, and what comes in goes behind what is upcoming
    have goes : Moment.formed c ⟨s, e⟩ = [] → s'.upcoming.Sublist (s.upcoming ++ e.arrivals) →
        (((c.formed (past ++ [⟨s, e⟩])).flatten ++ s'.upcoming).filter fun p =>
          c.settings.strategy.same a p.item).Sublist (arrivals (past ++ [⟨s, e⟩])) := by
      intro hformed hsub
      rw [formed_quiet hformed, arrivals_snoc]
      have hall : ((c.formed past).flatten ++ s'.upcoming).Sublist
          (((c.formed past).flatten ++ s.upcoming) ++ e.arrivals) := by
        rw [List.append_assoc]
        exact (List.Sublist.refl _).append hsub
      refine (hall.filter _).trans ?_
      rw [List.filter_append]
      exact ih.append List.filter_sublist
    have stays : Moment.formed c ⟨s, e⟩ = [] → s'.queue = s.queue → s'.pending = s.pending →
        (((c.formed (past ++ [⟨s, e⟩])).flatten ++ s'.upcoming).filter fun p =>
          c.settings.strategy.same a p.item).Sublist (arrivals (past ++ [⟨s, e⟩])) := by
      intro hformed hqueue hpending
      refine goes hformed ?_
      unfold State.upcoming
      rw [hqueue, hpending]
      exact List.sublist_append_left _ _
    cases change with
    | waits _ window =>
      refine goes (formed_ofWindow window) ?_
      unfold State.upcoming
      rw [List.append_assoc]
    | flushed _ window =>
      refine goes (formed_ofWindow window) ?_
      unfold State.upcoming
      rw [List.flatMap_append, List.flatMap_singleton, List.append_nil, List.append_assoc]
    | lost _ window =>
      refine goes (formed_ofWindow window) ?_
      unfold State.upcoming
      rw [List.append_nil, List.append_assoc]
      exact List.sublist_append_left _ _
    | left ticket => exact stays rfl rfl rfl
    | taken now f queue working next =>
      have hnew : Moment.formed c ⟨s, .take now⟩ = c.batches (c.sift now s f.items).1 := by
        unfold Moment.formed
        dsimp only
        rw [working, next]
      have harrivals : arrivals (past ++ [⟨s, .take now⟩]) = arrivals past := by
        rw [arrivals_snoc]
        exact List.append_nil _
      have hupcoming : s.upcoming = f.items ++ (queue.flatMap Flush.items ++ s.pending) := by
        unfold State.upcoming
        rw [next, List.flatMap_cons, List.append_assoc]
      have hlive := (c.sift_sublist now s f.items).filter fun p => c.settings.strategy.same a p.item
      rw [hupcoming] at ih
      rw [formed_snoc, hnew, harrivals, List.flatten_append, List.append_assoc]
      refine List.Sublist.trans ?_ ih
      show (((c.formed past).flatten ++ ((c.batches (c.sift now s f.items).1).flatten ++
        (queue.flatMap Flush.items ++ s.pending))).filter fun p =>
          c.settings.strategy.same a p.item).Sublist _
      simp only [List.filter_append, c.batches_filter]
      exact (List.Sublist.refl _).append (hlive.append (List.Sublist.refl _))
    | idle _ served formed => exact stays formed rfl rfl
    | started => exact stays rfl rfl rfl
    | ended => exact stays rfl rfl rfl
    | crashed =>
      refine goes rfl ?_
      unfold State.upcoming
      rw [List.flatMap_nil, List.nil_append]
      exact (List.sublist_append_right _ _).trans (List.sublist_append_left _ _)
    | resumed => exact stays rfl rfl rfl
    | finished => exact stays rfl rfl rfl

/-! ## served batches -/

theorem History.served_sublist {c : Scheduler} {past : List Moment} {s : State}
    {effects : List Effect} (h : c.History past s effects) (a : Item) :
    (((servings past).flatMap (·.batch)).filter fun p =>
      c.settings.strategy.same a p.item).Sublist (arrivals past) := by
  obtain ⟨rest, hformed, _⟩ := h.formed_eq
  have hserved : ((servings past).flatMap (·.batch)).Sublist
      ((c.formed past).flatten ++ s.upcoming) := by
    rw [hformed, List.flatten_append, ← List.flatMap_def, List.append_assoc]
    exact List.sublist_append_left _ _
  exact (hserved.filter _).trans (h.in_order a)

/-- Requests that might share a call are served in the order in which they came in. -/
theorem History.not_overtaken {c : Scheduler} {past : List Moment} {s : State}
    {effects : List Effect} (h : c.History past s effects) {a b : Pending}
    (hsame : c.settings.strategy.same a.item b.item = true)
    (hserved : [b, a].Sublist ((servings past).flatMap (·.batch))) :
    [b, a].Sublist (arrivals past) := by
  have hrefl : c.settings.strategy.same a.item a.item = true := by
    cases c.settings.strategy with
    | byCaller => exact decide_eq_true rfl
    | byHeaders => exact Strategy.sameHeaders_iff.mpr ⟨rfl, rfl⟩
    | indiscriminate => rfl
  have hpair : ([b, a].filter fun p => c.settings.strategy.same a.item p.item) = [b, a] := by
    rw [List.filter_eq_self]
    intro p hp
    rcases List.mem_cons.mp hp with rfl | hp
    · exact hsame
    · rw [List.mem_singleton.mp hp]
      exact hrefl
  have hfilter := hserved.filter fun p => c.settings.strategy.same a.item p.item
  rw [hpair] at hfilter
  exact hfilter.trans (h.served_sublist a.item)

end Scheduler

end Coalesce
