import Coalesce.Dispatch.Execution
import Coalesce.Proofs.Gateway.Lane

/-!
# What becomes of requests sent alone

* `Lane.Event.back?`     what comes back for a request sent alone;
* `Lane.Alone`           the request waits for what it waits for by itself, or it ended as it would;
* `Lane.Alone.step`      an event keeps this up, with what it brings for the request;
* `Lane.run_alone`       so it is in every run in which nobody else has the ticket, and its caller
                         stays.
-/

namespace Coalesce

namespace Lane

def Event.back? (ticket : Nat) : Event → Option (Nat × Outcome Json)
  | .resume t call outcome => if t = ticket then some (call, outcome) else none
  | _ => none

def solo? (l : Lane) (ticket : Nat) : Option Solo :=
  l.solos.find? fun s => s.request.ticket = ticket

structure Alone (p : Pending) (progress : Progress) (l : Lane) (effects : List Effect) : Prop where
  running : ∀ e, progress = .running e → l.solo? p.ticket = some ⟨p, e⟩
  ended : ∀ outcome, progress = .ended outcome →
    l.solo? p.ticket = none ∧ conclude p.ticket outcome ∈ effects

section
variable {r : Route} {l l' : Lane} {p : Pending} {progress : Progress} {effects : List Effect}

theorem Alone.of_running {e : Exchange} (found : l.solo? p.ticket = some ⟨p, e⟩) :
    Alone p (.running e) l effects where
  running e' h := by
    cases h
    exact found
  ended outcome h := by cases h

theorem Alone.of_ended {outcome : Outcome (List Json)} (gone : l.solo? p.ticket = none)
    (told : conclude p.ticket outcome ∈ effects) : Alone p (.ended outcome) l effects where
  running e h := by cases h
  ended outcome' h := by
    cases h
    exact ⟨gone, told⟩

theorem Alone.keep (h : Alone p progress l effects) (same : l'.solo? p.ticket = l.solo? p.ticket)
    (more : List Effect) : Alone p progress l' (effects ++ more) where
  running e he := same.trans (h.running e he)
  ended outcome houtcome := by
    obtain ⟨hnone, htold⟩ := h.ended outcome houtcome
    exact ⟨same.trans hnone, List.mem_append_left _ htold⟩

theorem solo?_append (solos : List Solo) (s : Scheduler.State) {solo : Solo} {ticket : Nat}
    (other : solo.request.ticket ≠ ticket) :
    solo? ⟨s, solos ++ [solo]⟩ ticket = solo? ⟨s, solos⟩ ticket := by
  unfold solo?
  dsimp only
  rw [List.find?_append, List.find?_cons_of_neg (by simpa using other), List.find?_nil,
    Option.or_none]

theorem solo?_filter (solos : List Solo) (s : Scheduler.State) {ticket other : Nat}
    (h : other ≠ ticket) :
    solo? ⟨s, solos.filter fun s => s.request.ticket ≠ other⟩ ticket = solo? ⟨s, solos⟩ ticket := by
  unfold solo?
  dsimp only
  rw [List.find?_filter]
  refine congrArg (fun q => solos.find? q) (funext fun solo => ?_)
  by_cases hsolo : solo.request.ticket = ticket
  · simp [hsolo, Ne.symm h]
  · simp [hsolo]

theorem solo?_filter_own (solos : List Solo) (s : Scheduler.State) (ticket : Nat) :
    solo? ⟨s, solos.filter fun s => s.request.ticket ≠ ticket⟩ ticket = none := by
  refine List.find?_eq_none.mpr fun solo hsolo => ?_
  simpa using (List.mem_filter.mp hsolo).2

theorem schedule_solos (r : Route) (e : Scheduler.Event) (l : Lane) :
    (l.schedule r e).1.solos = l.solos := by
  cases r <;> rfl

theorem sendAlone_other (t : Target) (now : Int) (transport : Transport) {q : Pending}
    (l : Lane) {ticket : Nat} (other : q.ticket ≠ ticket) :
    (l.sendAlone t now transport q).1.solo? ticket = l.solo? ticket := by
  unfold sendAlone
  dsimp only
  split
  · exact solo?_append l.solos l.scheduler other
  · rfl

theorem resume_other (t : Target) {ticket other : Nat} (call : Nat) (outcome : Outcome Json)
    (l : Lane) (h : other ≠ ticket) :
    (l.resume t other call outcome).1.solo? ticket = l.solo? ticket := by
  unfold resume
  split
  · rfl
  · rename_i solo hfound
    have hother : solo.request.ticket = other := by simpa using List.find?_some hfound
    dsimp only
    split
    · refine (solo?_append _ l.scheduler ?_).trans (solo?_filter l.solos l.scheduler h)
      rw [hother]
      exact h
    · exact solo?_filter l.solos l.scheduler h

/-- what an event is to a request that it brings nothing for -/
theorem step_other {e : Event} {ticket : Nat} (fresh : ∀ q ∈ e.arrivals, q.ticket ≠ ticket)
    (stays : e ≠ .leave ticket) (quiet : e.back? ticket = none) :
    (l.step r e).1.solo? ticket = l.solo? ticket := by
  have scheduled : ∀ (e' : Scheduler.Event) (l : Lane),
      (l.schedule r e').1.solo? ticket = l.solo? ticket := by
    intro e' l
    unfold solo?
    rw [schedule_solos]
  cases e with
  | execute now transport q =>
    have hq : q.ticket ≠ ticket := fresh q (List.mem_singleton_self q)
    cases r with
    | alone t => exact sendAlone_other t now transport l hq
    | batched c =>
      unfold step
      dsimp only
      split
      · exact sendAlone_other c.target now transport l hq
      · exact scheduled (.submit q) l
  | resume other call outcome =>
    have hother : other ≠ ticket := by
      rintro rfl
      cases (if_pos rfl).symm.trans quiet
    exact resume_other r.target call outcome l hother
  | leave other =>
    have hother : other ≠ ticket := by
      rintro rfl
      exact stays rfl
    refine (scheduled (.leave other) _).trans ?_
    exact solo?_filter l.solos l.scheduler hother
  | scheduled e' => exact scheduled e' l

/-- Every event keeps it up, with what it brings for the request. -/
theorem Alone.step (h : Alone p progress l effects) {e : Event}
    (fresh : ∀ q ∈ e.arrivals, q.ticket ≠ p.ticket) (stays : e ≠ .leave p.ticket) :
    Alone p ((e.back? p.ticket).toList.foldl (Progress.take r.target.codec) progress)
      (l.step r e).1 (effects ++ (l.step r e).2) := by
  cases hback : e.back? p.ticket with
  | none => exact h.keep (step_other fresh stays hback) _
  | some x =>
    obtain ⟨call, outcome, rfl, rfl⟩ : ∃ call outcome, e = .resume p.ticket call outcome ∧
        x = (call, outcome) := by
      cases e with
      | resume other call outcome =>
        by_cases hother : other = p.ticket
        · subst hother
          cases (if_pos rfl).symm.trans hback
          exact ⟨call, outcome, rfl, rfl⟩
        · cases (if_neg hother).symm.trans hback
      | _ => cases hback
    show Alone p (progress.take r.target.codec (call, outcome))
      (l.resume r.target p.ticket call outcome).1 (effects ++ (l.resume r.target p.ticket call
        outcome).2)
    cases progress with
    | ended result =>
      obtain ⟨hnone, htold⟩ := h.ended result rfl
      have hsame : l.resume r.target p.ticket call outcome = (l, []) := by
        have hnobody : (l.solos.find? fun s => s.request.ticket = p.ticket) = none := hnone
        unfold resume
        rw [hnobody]
      rw [hsame]
      exact h.keep rfl []
    | running e =>
      have hfound : (l.solos.find? fun s => s.request.ticket = p.ticket) = some ⟨p, e⟩ :=
        h.running e rfl
      rw [Progress.take_running]
      unfold resume
      rw [hfound]
      dsimp only
      cases hp : e.resume r.target.codec call outcome with
      | running e' =>
        have hnone := solo?_filter_own l.solos l.scheduler p.ticket
        refine .of_running ?_
        unfold solo? at hnone ⊢
        rw [List.find?_append, hnone, Option.none_or, List.find?_cons_of_pos (by simp)]
      | ended result =>
        refine .of_ended (solo?_filter_own l.solos l.scheduler p.ticket) ?_
        exact List.mem_append_right _ (List.mem_singleton_self _)

end

/-- A request sent alone waits for what it waits for by itself, or it ended as it would, whatever
else goes on at its target. -/
theorem run_alone (r : Route) (l : Lane) (now : Int) (transport : Transport) {p : Pending}
    (alone : ∀ c, r = .batched c → p.item.isSubscription = true)
    (nobody : l.solo? p.ticket = none) (es : List Event)
    (fresh : ∀ e ∈ es, ∀ q ∈ e.arrivals, q.ticket ≠ p.ticket) (stays : .leave p.ticket ∉ es) :
    Alone p (r.target.execute now transport [p.item] (es.filterMap (Event.back? p.ticket)))
      (run r l (.execute now transport p :: es)).1 (run r l (.execute now transport p :: es)).2 := by
  induction es using List.reverseRecOn with
  | nil =>
    have hstep : l.step r (.execute now transport p) = l.sendAlone r.target now transport p := by
      cases r with
      | alone t => rfl
      | batched c => exact if_pos (alone c rfl)
    show Alone p (r.target.start now transport [p.item]).2
      (l.step r (.execute now transport p)).1 ((l.step r (.execute now transport p)).2 ++ [])
    rw [hstep, List.append_nil]
    unfold sendAlone
    dsimp only
    cases hp : (r.target.start now transport [p.item]).2 with
    | running e =>
      refine .of_running ?_
      unfold solo? at nobody ⊢
      rw [List.find?_append, nobody, Option.none_or, List.find?_cons_of_pos (by simp)]
    | ended result =>
      exact .of_ended nobody (List.mem_append_right _ (List.mem_singleton_self _))
  | append_singleton es e ih =>
    have hall := ih (fun e' he' => fresh e' (List.mem_append_left _ he'))
      fun h => stays (List.mem_append_left _ h)
    have hlast := Alone.step (r := r) hall (e := e)
      (fresh e (List.mem_append_right _ (List.mem_singleton_self e))) (by
        rintro rfl
        exact stays (List.mem_append_right _ (List.mem_singleton_self _)))
    rw [← List.cons_append, run_snoc, List.filterMap_append]
    have hexecute : r.target.execute now transport [p.item]
        (es.filterMap (Event.back? p.ticket) ++ [e].filterMap (Event.back? p.ticket))
        = (e.back? p.ticket).toList.foldl (Progress.take r.target.codec)
          (r.target.execute now transport [p.item] (es.filterMap (Event.back? p.ticket))) := by
      have hone : [e].filterMap (Event.back? p.ticket) = (e.back? p.ticket).toList := by
        cases hback : e.back? p.ticket <;> simp [hback]
      rw [hone]
      exact List.foldl_append
    rw [hexecute]
    exact hlast

end Lane

end Coalesce
