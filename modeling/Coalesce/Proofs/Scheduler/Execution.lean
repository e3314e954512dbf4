import Coalesce.Dispatch.Execution
import Coalesce.Proofs.Scheduler.Frame

/-!
# What becomes of batches

* `Scheduler.back`               what came back for a batch, once it was served;
* `Scheduler.Serving.execute`    all that becomes of its requests, if that comes back;
* `Scheduler.Executed`           the batch waits for what they wait for, or it ended as they did;
* `Scheduler.History.executed`   so it is with every batch that was served, after any history.

Batches are served one after the other, and what comes back for one comes back in between what comes
back for others.  None of this matters to it.
-/

namespace Coalesce

namespace Scheduler

/-- what comes back for the batch with some number, if it was served before -/
def Moment.back? (id : Nat) (m : Moment) : Option (Nat × Outcome Json) :=
  match m.event with
  | .finish i call outcome =>
    if i = id ∧ id < m.state.nextDelivery then some (call, outcome) else none
  | _ => none

def back (past : List Moment) (id : Nat) : List (Nat × Outcome Json) :=
  past.filterMap (Moment.back? id)

def Serving.execute (c : Scheduler) (v : Serving) (back : List (Nat × Outcome Json)) : Progress :=
  c.target.execute v.now v.transport (v.batch.map (·.item)) back

structure Executed (c : Scheduler) (past : List Moment) (s : State) (id : Nat) (v : Serving) :
    Prop where
  running : ∀ e, v.execute c (back past id) = .running e →
    s.deliveries.find? (fun d => d.id = id) = some ⟨id, v.batch, e⟩
  ended : ∀ outcome, v.execute c (back past id) = .ended outcome →
    s.deliveries.find? (fun d => d.id = id) = none ∧ ∃ m ∈ past, c.Ends m v.batch outcome

theorem back_snoc (past : List Moment) (m : Moment) (id : Nat) :
    back (past ++ [m]) id = back past id ++ (m.back? id).toList := by
  unfold back
  rw [List.filterMap_append]
  cases h : m.back? id with
  | none => simp [h]
  | some x => simp [h]

theorem back_quiet {past : List Moment} {m : Moment} {id : Nat} (h : m.back? id = none) :
    back (past ++ [m]) id = back past id := by
  rw [back_snoc, h]
  exact List.append_nil _

theorem back?_finish {s : State} {id : Nat} (served : id < s.nextDelivery) (call : Nat)
    (outcome : Outcome Json) :
    Moment.back? id ⟨s, .finish id call outcome⟩ = some (call, outcome) := if_pos ⟨rfl, served⟩

theorem back?_eq_some {m : Moment} {id : Nat} {x : Nat × Outcome Json}
    (h : m.back? id = some x) : m.event = .finish id x.1 x.2 ∧ id < m.state.nextDelivery := by
  unfold Moment.back? at h
  split at h
  · rename_i hevent
    split at h
    · rename_i hserved
      cases h
      rw [hevent, hserved.1]
      exact ⟨rfl, hserved.2⟩
    · cases h
  · cases h

theorem back?_ofWindow {s : State} {e : Event} {id : Nat} (h : e.ofWindow) :
    Moment.back? id ⟨s, e⟩ = none := by
  cases e <;> first | rfl | cases h

/-- Nothing counts before a batch is served. -/
theorem History.back_unserved {c : Scheduler} {past : List Moment} {s : State}
    {effects : List Effect} (h : c.History past s effects) {id : Nat} (fresh : s.nextDelivery ≤ id) :
    back past id = [] := by
  induction h using History.by_changes with
  | start => rfl
  | next past s effects e s' more h h' _ ih =>
    have hmono : s.nextDelivery ≤ s'.nextDelivery := by
      rw [h.orderly.next, h'.orderly.next, servings_append, List.length_append]
      exact Nat.le_add_right _ _
    have hquiet : Moment.back? id ⟨s, e⟩ = none := by
      cases hback : Moment.back? id ⟨s, e⟩ with
      | none => rfl
      | some x =>
        have hserved : id < s.nextDelivery := (back?_eq_some hback).2
        omega
    rw [back_quiet hquiet]
    exact ih (Nat.le_trans hmono fresh)

theorem Orderly.find?_unserved {c : Scheduler} {past : List Moment} {s : State}
    (h : c.Orderly past s) : s.deliveries.find? (fun d => d.id = s.nextDelivery) = none := by
  refine List.find?_eq_none.mpr fun d hd heq => ?_
  have hlt := (h.kept d hd).id_lt
  rw [← h.next, of_decide_eq_true heq] at hlt
  exact Nat.lt_irrefl _ hlt

section
variable {c : Scheduler} {past : List Moment} {s s' : State} {m : Moment} {id : Nat} {v : Serving}

theorem Executed.of_running {e : Exchange} (executed : v.execute c (back past id) = .running e)
    (found : s.deliveries.find? (fun d => d.id = id) = some ⟨id, v.batch, e⟩) :
    c.Executed past s id v where
  running e' h := by
    rw [executed] at h
    cases h
    exact found
  ended outcome h := by
    rw [executed] at h
    cases h

theorem Executed.of_ended {outcome : Outcome (List Json)}
    (executed : v.execute c (back past id) = .ended outcome)
    (gone : s.deliveries.find? (fun d => d.id = id) = none) (one : m ∈ past)
    (ends : c.Ends m v.batch outcome) : c.Executed past s id v where
  running e h := by
    rw [executed] at h
    cases h
  ended outcome' h := by
    rw [executed] at h
    cases h
    exact ⟨gone, m, one, ends⟩

/-- an event that is nothing to a batch -/
theorem Executed.keep (h : c.Executed past s id v) (quiet : m.back? id = none)
    (same : s'.deliveries.find? (fun d => d.id = id) = s.deliveries.find? fun d => d.id = id) :
    c.Executed (past ++ [m]) s' id v := by
  have hback : back (past ++ [m]) id = back past id := back_quiet quiet
  cases hp : v.execute c (back past id) with
  | running e => exact .of_running (hback ▸ hp) (same.trans (h.running e hp))
  | ended outcome =>
    obtain ⟨hnone, m', hm', hends⟩ := h.ended outcome hp
    exact .of_ended (hback ▸ hp) (same.trans hnone) (List.mem_append_left _ hm') hends

theorem Executed.found (h : c.Executed past s id v) {d : Delivery}
    (found : s.deliveries.find? (fun d => d.id = id) = some d) :
    v.execute c (back past id) = .running d.exchange ∧ d = ⟨id, v.batch, d.exchange⟩ := by
  cases hp : v.execute c (back past id) with
  | running e =>
    rw [h.running e hp] at found
    cases found
    exact ⟨rfl, rfl⟩
  | ended outcome =>
    rw [(h.ended outcome hp).1] at found
    cases found

theorem execute_snoc (c : Scheduler) (past : List Moment) (v : Serving) {x : Nat × Outcome Json}
    (hback : m.back? id = some x) :
    v.execute c (back (past ++ [m]) id) = (v.execute c (back past id)).take c.target.codec x := by
  rw [back_snoc, hback]
  exact Target.execute_snoc ..

/-- what comes back for a batch, if nothing waits for it -/
theorem Executed.ignore (h : c.Executed past s id v) (call : Nat) (came : Outcome Json)
    (gone : s.deliveries.find? (fun d => d.id = id) = none) :
    c.Executed (past ++ [⟨s, .finish id call came⟩]) s id v := by
  cases hback : Moment.back? id ⟨s, .finish id call came⟩ with
  | none => exact h.keep hback rfl
  | some x =>
    cases hp : v.execute c (back past id) with
    | running e =>
      rw [h.running e hp] at gone
      cases gone
    | ended outcome =>
      obtain ⟨_, m, hm, hends⟩ := h.ended outcome hp
      refine .of_ended ?_ gone (List.mem_append_left _ hm) hends
      rw [c.execute_snoc past v hback, hp, Progress.take_ended]

/-- what comes back for a batch that waits -/
theorem Executed.finish (h : c.Executed past s id v) (served : id < s.nextDelivery) {d : Delivery}
    (found : s.deliveries.find? (fun d => d.id = id) = some d) (call : Nat)
    (came : Outcome Json) :
    v.execute c (back (past ++ [⟨s, .finish id call came⟩]) id)
      = d.exchange.resume c.target.codec call came := by
  rw [c.execute_snoc past v (back?_finish served call came), (h.found found).1,
    Progress.take_running]

end

/-! ## histories -/

section
variable {c : Scheduler} {past : List Moment} {s s' : State} {effects : List Effect} {id : Nat}
  {v : Serving} (h : c.History past s effects)
include h

theorem History.id_lt (served : (servings past)[id]? = some v) : id < s.nextDelivery := by
  rw [h.orderly.next]
  exact (List.getElem?_eq_some_iff.mp served).1

/-- A batch that is served has the next number; the others had theirs before. -/
theorem History.executed_serve {now : Int} {transport : Transport} {members : List Pending}
    {rest : List (List Pending)} (working : s.worker = .working (members :: rest))
    (before : ∀ id v, (servings past)[id]? = some v → c.Executed past s id v)
    (others : ∀ i, i < s.nextDelivery →
      s'.deliveries.find? (fun d => d.id = i) = s.deliveries.find? fun d => d.id = i)
    (running : ∀ e, Serving.progress c ⟨now, transport, members⟩ = .running e →
      s'.deliveries = s.deliveries ++ [⟨s.nextDelivery, members, e⟩])
    (ended : ∀ outcome, Serving.progress c ⟨now, transport, members⟩ = .ended outcome →
      s'.deliveries = s.deliveries)
    (served : (servings (past ++ [⟨s, .serve now transport⟩]))[id]? = some v) :
    c.Executed (past ++ [⟨s, .serve now transport⟩]) s' id v := by
  rw [servings_serve past now transport working] at served
  have hnext : s.nextDelivery = (servings past).length := h.orderly.next
  rcases Nat.lt_or_ge id (servings past).length with hlt | hge
  · rw [List.getElem?_append_left hlt] at served
    exact (before id v served).keep rfl (others id (by omega))
  · have hlast : id = s.nextDelivery := by
      have hbound := (List.getElem?_eq_some_iff.mp served).1
      rw [List.length_append, List.length_singleton] at hbound
      omega
    rw [hlast, hnext, List.getElem?_concat_length] at served
    cases served
    subst hlast
    -- nothing came back for it so far
    have hstart : Serving.execute c ⟨now, transport, members⟩
        (back (past ++ [⟨s, .serve now transport⟩]) s.nextDelivery)
          = Serving.progress c ⟨now, transport, members⟩ := by
      rw [back_quiet rfl, h.back_unserved (Nat.le_refl _)]
      rfl
    cases hp : Serving.progress c ⟨now, transport, members⟩ with
    | running e =>
      refine .of_running (hstart.trans hp) ?_
      rw [running e hp, List.find?_append, h.orderly.find?_unserved, Option.none_or,
        List.find?_cons_of_pos (by simp)]
    | ended outcome =>
      refine .of_ended (hstart.trans hp) ?_ (List.mem_append_right _ (List.mem_singleton_self _))
        (.atOnce _ _ _ (serving?_serve now transport working) hp)
      rw [ended outcome hp]
      exact h.orderly.find?_unserved

/-- A batch waits for what its requests wait for, or it ended as they did. -/
theorem History.executed (served : (servings past)[id]? = some v) : c.Executed past s id v := by
  induction h using History.by_changes generalizing id v with
  | start => cases served
  | next past s effects e s' more h h' change ih =>
    -- an event that serves nothing, and is nothing to the batch
    have quiet : Moment.serving? ⟨s, e⟩ = none → Moment.back? id ⟨s, e⟩ = none →
        (s'.deliveries.find? (fun d => d.id = id) = s.deliveries.find? fun d => d.id = id) →
        c.Executed (past ++ [⟨s, e⟩]) s' id v := by
      intro hserving hback hsame
      rw [servings_quiet hserving] at served
      exact (ih served).keep hback hsame
    have window : e.ofWindow → s'.deliveries = s.deliveries →
        c.Executed (past ++ [⟨s, e⟩]) s' id v := fun hwindow hsame =>
      quiet (serving?_ofWindow hwindow) (back?_ofWindow hwindow) (by rw [hsame])
    cases change with
    | waits _ hwindow => exact window hwindow rfl
    | flushed _ hwindow => exact window hwindow rfl
    | lost _ hwindow => exact window hwindow rfl
    | left ticket => exact quiet rfl rfl rfl
    | taken now => exact quiet rfl rfl rfl
    | idle _ hserving _ _ finished =>
      cases hback : Moment.back? id ⟨s, e⟩ with
      | none => exact quiet hserving hback rfl
      | some x =>
        obtain ⟨hevent, _⟩ := back?_eq_some hback
        dsimp only at hevent
        subst hevent
        rw [servings_quiet rfl] at served
        exact (ih served).ignore x.1 x.2 (finished id x.1 x.2 rfl)
    | started now transport members rest working exchange running =>
      refine h.executed_serve working (fun _ _ => ih) (fun i hi => ?_) (fun e he => ?_)
        (fun outcome houtcome => ?_) served
      · have hnew : ¬ s.nextDelivery = i := by omega
        rw [List.find?_append, List.find?_cons_of_neg (by simpa using hnew), List.find?_nil,
          Option.or_none]
      · rw [running] at he
        cases he
        rfl
      · rw [running] at houtcome
        cases houtcome
    | ended now transport members rest working outcome alive ends =>
      refine h.executed_serve working (fun _ _ => ih) (fun i hi => rfl) (fun e he => ?_)
        (fun _ _ => rfl) served
      rw [ends] at he
      cases he
    | crashed now transport members rest working ends =>
      refine h.executed_serve working (fun _ _ => ih) (fun i hi => rfl) (fun e he => ?_)
        (fun _ _ => rfl) served
      rw [ends] at he
      cases he
    | resumed i call outcome d found exchange running =>
      rw [servings_quiet rfl] at served
      by_cases hid : i = id
      · subst hid
        have hexecuted := (ih served).finish (h.id_lt served) found call outcome
        refine .of_running (hexecuted.trans running) ?_
        have hmine := Delivery.find?_update_own exchange found
        rwa [((ih served).found found).2] at hmine
      · exact (ih served).keep (if_neg fun h => hid h.1)
          (Delivery.find?_update_other hid exchange _)
    | finished i call outcome d found result ends =>
      rw [servings_quiet rfl] at served
      by_cases hid : i = id
      · subst hid
        have hexecuted := (ih served).finish (h.id_lt served) found call outcome
        have hmembers : d.members = v.batch := by rw [((ih served).found found).2]
        refine .of_ended (hexecuted.trans ends) (Delivery.find?_filter_own i _)
          (List.mem_append_right _ (List.mem_singleton_self _)) ?_
        rw [← hmembers]
        exact .later s i call outcome d result found ends
      · exact (ih served).keep (if_neg fun h => hid h.1) (Delivery.find?_others (Ne.symm hid) _)

end

end Scheduler

end Coalesce
