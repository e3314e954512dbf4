import Coalesce.Proofs.Scheduler.Batches
import Mathlib.Algebra.Order.Group.Multiset
import Mathlib.Tactic.Abel

/-!
# Custody of requests

* `Scheduler.State.held`            the requests that a scheduler holds;
* `Scheduler.Exit`                  a request that leaves it, with its result unless its caller has
                                    left before;
* `Scheduler.Reason`                what may be told to a request: the value of its batch, the error
                                    of its batch, that it comes too late, or that no answer comes;
* `Scheduler.Change.passes`         no change loses or doubles a request: what it held and what
                                    comes in is what it holds and what leaves;
* `Scheduler.History.custody`       the same from the start on.

Answers are told to those that leave, once each, and nobody else.
-/

namespace Coalesce

namespace Scheduler

/-! ## holding -/

def State.held (s : State) : List Pending :=
  s.pending ++ (s.queue.flatMap Flush.items ++
    (s.worker.batches.flatten ++ s.deliveries.flatMap Delivery.members))

/-! ## leaving -/

abbrev Exit := Pending × Option (Except Error Json)

/-- a request that gets a result -/
def settle (s : State) (p : Pending) (result : Except Error Json) : Exit :=
  (p, if p.ticket ∈ s.left then none else some result)

/-- the answers told to those that leave -/
def told (out : List Exit) : List (Nat × Except Error Json) :=
  out.filterMap fun x => x.2.map fun result => (x.1.ticket, result)

theorem told_append (first second : List Exit) :
    told (first ++ second) = told first ++ told second := List.filterMap_append

theorem answers_answer (s : State) (p : Pending) (result : Except Error Json) :
    answers (answer s p result) = told [settle s p result] := by
  unfold answer settle
  by_cases h : p.ticket ∈ s.left
  · rw [if_pos h, if_pos h]
    rfl
  · rw [if_neg h, if_neg h]
    rfl

theorem answers_all (s : State) (ps : List Pending) (result : Pending → Except Error Json) :
    answers (ps.flatMap fun p => answer s p (result p))
      = told (ps.map fun p => settle s p (result p)) := by
  induction ps with
  | nil => rfl
  | cons p ps ih =>
    rw [List.flatMap_cons, answers_append, answers_answer, ih, ← told_append]
    rfl

inductive Reason (c : Scheduler) (past : List Moment) (p : Pending) :
    Except Error Json → Prop where
  /-- its own result, when its batch ended well -/
  | value (m : Moment) (members : List Pending) (results : List Json) (i : Nat) (value : Json)
      (one : m ∈ past) (ends : c.Ends m members (.done results)) (member : members[i]? = some p)
      (result : results[i]? = some value) : Reason c past p (.ok value)
  /-- the error of its batch -/
  | failure (m : Moment) (members : List Pending) (cause : Error) (one : m ∈ past)
      (ends : c.Ends m members (.failed cause)) (member : p ∈ members) :
      Reason c past p (.error cause)
  /-- it came too late to be answered in time -/
  | late (m : Moment) (now : Int) (cause : Error) (one : m ∈ past) (event : m.event = .take now)
      (late : c.inTime now p = .error cause) : Reason c past p (.error cause)
  /-- its batch crashed, or the dispatcher did -/
  | dropped (m : Moment) (members : List Pending) (one : m ∈ past)
      (ends : c.Ends m members .crashed) (own : p ∈ members ∨ m.serving?.isSome) :
      Reason c past p (.error (.runtime (.replyDropped c.target.name)))

theorem Reason.mono {c : Scheduler} {past : List Moment} {p : Pending}
    {result : Except Error Json} (h : c.Reason past p result) (more : List Moment) :
    c.Reason (past ++ more) p result := by
  cases h with
  | value m members results i v one ends member result =>
    exact .value m members results i v (List.mem_append_left _ one) ends member result
  | failure m members cause one ends member =>
    exact .failure m members cause (List.mem_append_left _ one) ends member
  | late m now cause one event late =>
    exact .late m now cause (List.mem_append_left _ one) event late
  | dropped m members one ends own => exact .dropped m members (List.mem_append_left _ one) ends own

/-- one that leaves has a reason for its result, and has left if it has none -/
def Due (c : Scheduler) (past : List Moment) (s : State) (x : Exit) : Prop :=
  match x.2 with
  | some result => c.Reason past x.1 result
  | none => x.1.ticket ∈ s.left

theorem due_settle {c : Scheduler} {past : List Moment} {s : State} {p : Pending}
    {result : Except Error Json} (h : c.Reason past p result) :
    c.Due past s (settle s p result) := by
  unfold settle
  by_cases hleft : p.ticket ∈ s.left
  · rw [if_pos hleft]
    exact hleft
  · rw [if_neg hleft]
    exact h

theorem Due.mono {c : Scheduler} {past : List Moment} {s s' : State} {x : Exit}
    (h : c.Due past s x) (hleft : s.left ⊆ s'.left) (more : List Moment) :
    c.Due (past ++ more) s' x := by
  obtain ⟨p, o⟩ := x
  cases o with
  | none => exact hleft h
  | some result => exact Reason.mono h more

/-! ## one change -/

theorem Change.left_subset {c : Scheduler} {s s' : State} {e : Event} {more : List Effect}
    (h : Change c s e s' more) : s.left ⊆ s'.left := by
  cases h with
  | left ticket => exact List.subset_cons_self _ _
  | _ => exact List.Subset.refl _

/-- What was held and what comes in is what is held and what leaves. -/
structure Passes (c : Scheduler) (past : List Moment) (s : State) (come : List Pending)
    (s' : State) (effects : List Effect) (out : List Exit) : Prop where
  perm : (s.held ++ come).Perm (s'.held ++ out.map Prod.fst)
  told : answers effects = told out
  due : ∀ x ∈ out, c.Due past s x

/-- all of some requests are told the same -/
theorem settle_all {c : Scheduler} (past : List Moment) (s : State) (ps : List Pending)
    (result : Pending → Except Error Json) (h : ∀ p ∈ ps, c.Reason past p (result p)) :
    (ps.map fun p => settle s p (result p)).map Prod.fst = ps ∧
      ∀ x ∈ ps.map fun p => settle s p (result p), c.Due past s x := by
  refine ⟨?_, fun x hx => ?_⟩
  · rw [List.map_map]
    exact List.map_id ps
  · obtain ⟨p, hp, rfl⟩ := List.mem_map.mp hx
    exact due_settle (h p hp)

/-- all those that get no answer leave -/
theorem drop_exits {c : Scheduler} {past : List Moment} (s : State) (ps : List Pending)
    (h : ∀ p ∈ ps, c.Reason past p (.error (.runtime (.replyDropped c.target.name)))) :
    ∃ out : List Exit, out.map Prod.fst = ps ∧ answers (c.drop s ps) = Scheduler.told out ∧
      ∀ x ∈ out, c.Due past s x := by
  obtain ⟨hfst, hdue⟩ := settle_all past s ps _ h
  exact ⟨_, hfst, answers_all s ps _, hdue⟩

/-- those that come too late leave -/
theorem sift_exits (c : Scheduler) (past : List Moment) (now : Int) (s : State)
    (items : List Pending) {m : Moment} (hm : m ∈ past) (hevent : m.event = .take now) :
    ∃ out : List Exit, items.Perm ((c.sift now s items).1 ++ out.map Prod.fst) ∧
      answers (c.sift now s items).2 = Scheduler.told out ∧ ∀ x ∈ out, c.Due past s x := by
  induction items with
  | nil => exact ⟨[], List.Perm.refl _, rfl, fun x hx => absurd hx List.not_mem_nil⟩
  | cons p rest ih =>
    obtain ⟨out, hperm, htold, hdue⟩ := ih
    have gone : ∀ {o : Option (Except Error Json)}, c.Due past s (p, o) →
        (p :: rest).Perm ((c.sift now s rest).1 ++ ((p, o) :: out).map Prod.fst) ∧
          ∀ x ∈ (p, o) :: out, c.Due past s x := by
      intro o ho
      refine ⟨(hperm.cons p).trans List.perm_middle.symm, fun x hx => ?_⟩
      rcases List.mem_cons.mp hx with rfl | hx
      · exact ho
      · exact hdue x hx
    unfold sift
    dsimp only
    split
    · rename_i hleft
      obtain ⟨hp, hd⟩ := gone (o := none) hleft
      exact ⟨_, hp, htold, hd⟩
    · rename_i hleft
      split
      · exact ⟨out, hperm.cons p, htold, hdue⟩
      · rename_i cause hlate
        obtain ⟨hp, hd⟩ := gone (o := some (.error cause)) (Reason.late m now cause hm hevent hlate)
        refine ⟨_, hp, ?_, hd⟩
        have hanswer : answers (answer s p (.error cause))
            = Scheduler.told [(p, some (.error cause))] := by
          rw [answers_answer]
          unfold settle
          rw [if_neg hleft]
        rw [answers_append, hanswer, htold, ← told_append]
        rfl

theorem answers_deliver (c : Scheduler) (s : State) (ps : List Pending) (rs : List Json)
    (h : rs.length = ps.length) :
    answers (c.deliver s ps rs)
      = Scheduler.told ((ps.zip rs).map fun x => settle s x.1 (.ok x.2)) := by
  induction ps generalizing rs with
  | nil =>
    cases rs with
    | nil => rfl
    | cons r rs => cases h
  | cons p ps ih =>
    cases rs with
    | nil => cases h
    | cons r rs =>
      rw [deliver, answers_append, answers_answer, ih rs (Nat.succ.inj h), ← told_append]
      rfl

/-- all members of a batch leave when it ends -/
theorem ending_exits {c : Scheduler} {past : List Moment} (s : State) {m : Moment} (hm : m ∈ past)
    {members : List Pending} {outcome : Outcome (List Json)} (hends : c.Ends m members outcome)
    (hlen : ∀ results, outcome = .done results → results.length = members.length) :
    ∃ out : List Exit, out.map Prod.fst = members ∧
      answers (c.ending s members outcome) = Scheduler.told out ∧ ∀ x ∈ out, c.Due past s x := by
  cases outcome with
  | done results =>
    have hlength := hlen results rfl
    refine ⟨_, ?_, c.answers_deliver s members results hlength, fun x hx => ?_⟩
    · rw [List.map_map]
      exact List.map_fst_zip (Nat.le_of_eq hlength.symm)
    · obtain ⟨⟨p, r⟩, hpr, rfl⟩ := List.mem_map.mp hx
      obtain ⟨i, hi⟩ := List.mem_iff_getElem?.mp hpr
      obtain ⟨hp, hr⟩ := List.getElem?_zip_eq_some.mp hi
      exact due_settle (.value m members results i r hm hends hp hr)
  | failed cause =>
    have hall := settle_all past s members (fun _ => .error cause) fun p hp =>
      Reason.failure m members cause hm hends hp
    exact ⟨_, hall.1, answers_all s members fun _ => .error cause, hall.2⟩
  | crashed =>
    exact drop_exits s members fun p hp => Reason.dropped m members hm hends (Or.inl hp)

/-- the dispatcher is gone only after a crash -/
theorem History.gone {c : Scheduler} {past : List Moment} {s : State} {effects : List Effect}
    (h : c.History past s effects) (hgone : s.worker = .gone) :
    ∃ m ∈ past, m.serving?.isSome ∧ ∃ members, c.Ends m members .crashed := by
  induction h using History.by_changes with
  | start => cases hgone
  | next past s effects e s' more h _ change ih =>
    have old : s.worker = .gone →
        ∃ m ∈ past ++ [⟨s, e⟩], m.serving?.isSome ∧ ∃ members, c.Ends m members .crashed := by
      intro hs
      obtain ⟨m, hm, hrest⟩ := ih hs
      exact ⟨m, List.mem_append_left _ hm, hrest⟩
    cases change with
    | waits => exact old hgone
    | flushed => exact old hgone
    | lost => exact old hgone
    | left ticket => exact old hgone
    | taken => cases hgone
    | idle => exact old hgone
    | started => cases hgone
    | ended => cases hgone
    | crashed now transport members rest working ends =>
      have hserving := serving?_serve now transport working
      refine ⟨_, List.mem_append_right _ (List.mem_singleton_self _), ?_, members,
        .atOnce _ _ _ hserving ends⟩
      rw [hserving]
      rfl
    | resumed => exact old hgone
    | finished => exact old hgone

/-- nothing waits for a dispatcher that is gone -/
theorem Change.gone_queue {c : Scheduler} {s s' : State} {e : Event} {more : List Effect}
    (h : Change c s e s' more) (before : s.worker = .gone → s.queue = [])
    (hgone : s'.worker = .gone) : s'.queue = [] := by
  cases h with
  | waits => exact before hgone
  | flushed _ _ batches working => cases working.symm.trans hgone
  | lost => exact before hgone
  | left ticket => exact before hgone
  | taken => cases hgone
  | idle => exact before hgone
  | started => cases hgone
  | ended => cases hgone
  | crashed => rfl
  | resumed => exact before hgone
  | finished => exact before hgone

theorem History.gone_queue {c : Scheduler} {past : List Moment} {s : State} {effects : List Effect}
    (h : c.History past s effects) : s.worker = .gone → s.queue = [] := by
  induction h using History.by_changes with
  | start => exact fun _ => rfl
  | next past s effects e s' more h _ change ih => exact change.gone_queue ih

theorem found_perm {ds : List Delivery} {id : Nat} {d : Delivery} (hids : (ds.map (·.id)).Nodup)
    (hfound : ds.find? (fun d => d.id = id) = some d) :
    (ds.flatMap Delivery.members).Perm
      ((ds.filter fun d => d.id ≠ id).flatMap Delivery.members ++ d.members) := by
  induction ds with
  | nil => cases hfound
  | cons x rest ih =>
    obtain ⟨hx, hrest⟩ := List.nodup_cons.mp hids
    rw [List.find?_cons] at hfound
    by_cases hid : x.id = id
    · simp only [hid, decide_true, Option.some.injEq] at hfound
      have hothers : (rest.filter fun d => d.id ≠ id) = rest := by
        refine List.filter_eq_self.mpr fun y hy => ?_
        have hne : y.id ≠ id := by
          rintro rfl
          exact hx (List.mem_map.mpr ⟨y, hy, hid.symm⟩)
        exact decide_eq_true hne
      rw [List.filter_cons, if_neg (by simp [hid]), hothers, List.flatMap_cons, hfound]
      exact List.perm_append_comm
    · simp only [hid, decide_false] at hfound
      rw [List.filter_cons, if_pos (by simp [hid]), List.flatMap_cons, List.flatMap_cons,
        List.append_assoc]
      exact (ih hrest hfound).append_left _

theorem answers_silent {notes : List Effect} (h : Silent notes) : answers notes = [] := by
  refine List.filterMap_eq_nil_iff.mpr fun e he => ?_
  obtain ⟨notice, rfl, _⟩ := h e he
  rfl

theorem Change.passes {c : Scheduler} {past : List Moment} {s s' : State}
    {effects more : List Effect} {e : Event} (h : c.History past s effects)
    (hc : Change c s e s' more) :
    ∃ out, c.Passes (past ++ [⟨s, e⟩]) s e.arrivals s' more out := by
  have hm : (⟨s, e⟩ : Moment) ∈ past ++ [⟨s, e⟩] :=
    List.mem_append_right _ (List.mem_singleton_self _)
  cases hc with
  | waits _ window generation timers =>
    refine ⟨[], Multiset.coe_eq_coe.mp ?_, rfl, fun x hx => absurd hx List.not_mem_nil⟩
    simp only [State.held, ← Multiset.coe_add, List.map_nil, Multiset.coe_nil]
    abel
  | flushed _ window batches working trigger generation timers =>
    refine ⟨[], Multiset.coe_eq_coe.mp ?_, rfl, fun x hx => absurd hx List.not_mem_nil⟩
    simp only [State.held, List.flatMap_append, List.flatMap_singleton, ← Multiset.coe_add,
      List.map_nil, Multiset.coe_nil]
    abel
  | lost _ window gone generation timers notice =>
    obtain ⟨m, hmp, hserving, members, hends⟩ := h.gone gone
    obtain ⟨out, hout, htold, hdue⟩ := drop_exits s (s.pending ++ e.arrivals) fun p _ =>
      Reason.dropped m members (List.mem_append_left [⟨s, e⟩] hmp) hends (Or.inr hserving)
    refine ⟨out, Multiset.coe_eq_coe.mp ?_, htold, hdue⟩
    rw [hout]
    simp only [State.held, ← Multiset.coe_add, Multiset.coe_nil]
    abel
  | left ticket =>
    refine ⟨[], ?_, rfl, fun x hx => absurd hx List.not_mem_nil⟩
    exact List.Perm.refl _
  | taken now f queue working next notes silent =>
    obtain ⟨out, hperm, htold, hdue⟩ := c.sift_exits _ now s f.items hm rfl
    refine ⟨out, Multiset.coe_eq_coe.mp ?_, ?_, hdue⟩
    · have hitems := Multiset.coe_eq_coe.mpr hperm
      have hlive := Multiset.coe_eq_coe.mpr (c.batches_perm (c.sift now s f.items).1)
      simp only [State.held, working, next, Worker.batches, List.flatten_nil, List.flatMap_cons,
        Event.arrivals, ← Multiset.coe_add, Multiset.coe_nil] at hitems ⊢
      rw [hitems, hlive]
      abel
    · rw [answers_append, htold, answers_silent silent, List.append_nil]
  | idle _ served formed arrivals finished =>
    refine ⟨[], ?_, rfl, fun x hx => absurd hx List.not_mem_nil⟩
    rw [arrivals]
    exact List.Perm.refl _
  | started now transport members rest working exchange running =>
    refine
      ⟨[], Multiset.coe_eq_coe.mp ?_, answers_called _ _, fun x hx => absurd hx List.not_mem_nil⟩
    simp only [State.held, working, Worker.batches, List.flatten_cons, List.flatMap_append,
      List.flatMap_singleton, Event.arrivals, ← Multiset.coe_add, List.map_nil, Multiset.coe_nil]
    abel
  | ended now transport members rest working outcome alive ends =>
    have hends : c.Ends ⟨s, .serve now transport⟩ members outcome :=
      .atOnce _ _ _ (serving?_serve now transport working) ends
    obtain ⟨out, hout, htold, hdue⟩ := ending_exits s hm hends fun results hdone => by
      rw [hdone] at hends
      exact (h.answers_of_ends hends).1
    refine ⟨out, Multiset.coe_eq_coe.mp ?_, ?_, hdue⟩
    · simp only [State.held, working, Worker.batches, List.flatten_cons, Event.arrivals, hout,
        ← Multiset.coe_add, Multiset.coe_nil]
      abel
    · rw [answers_append, answers_called, htold, List.nil_append]
  | crashed now transport members rest working ends =>
    have hserving := serving?_serve now transport working
    obtain ⟨out, hout, htold, hdue⟩ := drop_exits s
      (members ++ rest.flatten ++ s.queue.flatMap Flush.items) fun p _ =>
        Reason.dropped _ members hm (.atOnce _ _ _ hserving ends) (Or.inr (by rw [hserving]; rfl))
    refine ⟨out, Multiset.coe_eq_coe.mp ?_, ?_, hdue⟩
    · rw [hout]
      simp only [State.held, working, Worker.batches, List.flatten_cons, List.flatten_nil,
        List.flatMap_nil, Event.arrivals, ← Multiset.coe_add, Multiset.coe_nil]
      abel
    · rw [answers_append, answers_called, List.nil_append]
      exact htold
  | resumed id call outcome d found exchange running =>
    have hsame : (s.deliveries.map fun d => if d.id = id then { d with exchange } else d).flatMap
        Delivery.members = s.deliveries.flatMap Delivery.members := by
      rw [List.flatMap_map]
      refine List.flatMap_congr fun d _ => ?_
      split <;> rfl
    refine ⟨[], ?_, rfl, fun x hx => absurd hx List.not_mem_nil⟩
    unfold State.held
    dsimp only
    rw [hsame]
    exact List.Perm.refl _
  | finished id call outcome d found result ends =>
    have hends : c.Ends ⟨s, .finish id call outcome⟩ d.members result :=
      .later s id call outcome d result found ends
    obtain ⟨out, hout, htold, hdue⟩ := ending_exits s hm hends fun results hdone => by
      rw [hdone] at hends
      exact (h.answers_of_ends hends).1
    refine ⟨out, Multiset.coe_eq_coe.mp ?_, htold, hdue⟩
    have hd := Multiset.coe_eq_coe.mpr (found_perm h.orderly.ids found)
    simp only [State.held, Event.arrivals, hout, ← Multiset.coe_add, Multiset.coe_nil] at hd ⊢
    rw [hd]
    abel

/-! ## all changes -/

/-- What came in is what is held and what has left, from the start on. -/
theorem History.custody {c : Scheduler} {past : List Moment} {s : State} {effects : List Effect}
    (h : c.History past s effects) :
    ∃ out : List Exit, (arrivals past).Perm (s.held ++ out.map Prod.fst) ∧
      answers effects = Scheduler.told out ∧ ∀ x ∈ out, c.Due past s x := by
  induction h using History.by_changes with
  | start => exact ⟨[], List.Perm.refl _, rfl, fun x hx => absurd hx List.not_mem_nil⟩
  | next past s effects e s' more h _ change ih =>
    obtain ⟨out, hperm, htold, hdue⟩ := ih
    obtain ⟨out', hpass⟩ := change.passes h
    refine ⟨out ++ out', Multiset.coe_eq_coe.mp ?_, ?_, fun x hx => ?_⟩
    · have hold := Multiset.coe_eq_coe.mpr hperm
      have hnew := Multiset.coe_eq_coe.mpr hpass.perm
      rw [arrivals_snoc]
      simp only [List.map_append, ← Multiset.coe_add] at hold hnew ⊢
      rw [hold]
      calc (s.held : Multiset Pending) + ↑(out.map Prod.fst) + ↑e.arrivals
          = ↑s.held + ↑e.arrivals + ↑(out.map Prod.fst) := by abel
        _ = ↑s'.held + (↑(out.map Prod.fst) + ↑(out'.map Prod.fst)) := by
          rw [hnew]
          abel
    · rw [answers_append, htold, hpass.told, told_append]
    · have hleft : s.left ⊆ s'.left := change.left_subset
      rcases List.mem_append.mp hx with hx | hx
      · exact (hdue x hx).mono hleft _
      · have hd := (hpass.due x hx).mono hleft []
        rwa [List.append_nil] at hd

/-- No request is formed into batches twice: what came in is what still waits, what was formed, and
others. -/
theorem History.formed_arrivals {c : Scheduler} {past : List Moment} {s : State}
    {effects : List Effect} (h : c.History past s effects) :
    ∃ others, (arrivals past).Perm
      (s.pending ++ (s.queue.flatMap Flush.items ++ ((c.formed past).flatten ++ others))) := by
  induction h using History.by_changes with
  | start => exact ⟨[], List.Perm.refl _⟩
  | next past s effects e s' more h _ change ih =>
    obtain ⟨others, hperm⟩ := ih
    have hold := Multiset.coe_eq_coe.mpr hperm
    simp only [← Multiset.coe_add] at hold
    -- an event that leaves the windows alone
    have quiet : e.arrivals = [] → Moment.formed c ⟨s, e⟩ = [] → s'.pending = s.pending →
        s'.queue = s.queue → ∃ others, (arrivals (past ++ [⟨s, e⟩])).Perm
          (s'.pending ++ (s'.queue.flatMap Flush.items ++
            ((c.formed (past ++ [⟨s, e⟩])).flatten ++ others))) := by
      intro harrivals hformed hpending hqueue
      refine ⟨others, ?_⟩
      rw [arrivals_snoc, formed_quiet hformed, hpending, hqueue]
      show (arrivals past ++ e.arrivals).Perm _
      rw [harrivals, List.append_nil]
      exact hperm
    cases change with
    | waits _ window =>
      refine ⟨others, Multiset.coe_eq_coe.mp ?_⟩
      rw [arrivals_snoc, formed_quiet (formed_ofWindow window)]
      simp only [← Multiset.coe_add]
      rw [hold]
      abel
    | flushed _ window =>
      refine ⟨others, Multiset.coe_eq_coe.mp ?_⟩
      rw [arrivals_snoc, formed_quiet (formed_ofWindow window)]
      simp only [List.flatMap_append, List.flatMap_singleton, ← Multiset.coe_add, Multiset.coe_nil]
      rw [hold]
      abel
    | lost _ window =>
      refine ⟨others ++ (s.pending ++ e.arrivals), Multiset.coe_eq_coe.mp ?_⟩
      rw [arrivals_snoc, formed_quiet (formed_ofWindow window)]
      simp only [← Multiset.coe_add, Multiset.coe_nil]
      rw [hold]
      abel
    | left ticket => exact quiet rfl rfl rfl rfl
    | taken now f queue working next =>
      obtain ⟨out, hitems, _⟩ := c.sift_exits (past ++ [⟨s, .take now⟩]) now s f.items
        (List.mem_append_right _ (List.mem_singleton_self _)) rfl
      refine ⟨others ++ out.map Prod.fst, Multiset.coe_eq_coe.mp ?_⟩
      have hnew : Moment.formed c ⟨s, .take now⟩ = c.batches (c.sift now s f.items).1 := by
        unfold Moment.formed
        dsimp only
        rw [working, next]
      have hsift := Multiset.coe_eq_coe.mpr hitems
      have hlive := Multiset.coe_eq_coe.mpr (c.batches_perm (c.sift now s f.items).1)
      rw [arrivals_snoc, formed_snoc, hnew, List.flatten_append]
      simp only [next, List.flatMap_cons, Event.arrivals, ← Multiset.coe_add, Multiset.coe_nil]
        at hold hsift ⊢
      rw [hold, hsift, hlive]
      abel
    | idle _ served formed arrivals => exact quiet arrivals formed rfl rfl
    | started => exact quiet rfl rfl rfl rfl
    | ended => exact quiet rfl rfl rfl rfl
    | crashed =>
      refine ⟨others ++ s.queue.flatMap Flush.items, Multiset.coe_eq_coe.mp ?_⟩
      rw [arrivals_snoc, formed_quiet rfl]
      simp only [Event.arrivals, List.flatMap_nil, ← Multiset.coe_add, Multiset.coe_nil]
      rw [hold]
      abel
    | resumed => exact quiet rfl rfl rfl rfl
    | finished => exact quiet rfl rfl rfl rfl

theorem History.formed_once {c : Scheduler} {past : List Moment} {s : State} {effects : List Effect}
    (h : c.History past s effects) (fresh : ((arrivals past).map (·.ticket)).Nodup) :
    ((c.formed past).flatten.map (·.ticket)).Nodup := by
  obtain ⟨others, hperm⟩ := h.formed_arrivals
  have hnodup := (hperm.map (·.ticket)).nodup_iff.mp fresh
  simp only [List.map_append] at hnodup
  exact (List.nodup_append.mp (List.nodup_append.mp (List.nodup_append.mp hnodup).2.1).2.1).1

end Scheduler

end Coalesce
