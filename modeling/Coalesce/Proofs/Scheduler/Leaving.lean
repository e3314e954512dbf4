import Coalesce.Proofs.Scheduler.Late
import Coalesce.Proofs.Scheduler.Order

/-!
# Callers that leave

* `Scheduler.live`               whether a request is still worth answering when its window is cut;
* `Scheduler.Takes.formed_live`  the batches of a window are those of its live requests;
* `Scheduler.State.Cut`          no request with some ticket waits for its window to be cut;
* `Scheduler.History.cut_after`  this holds of the requests of a window once it is taken;
* `Scheduler.History.window_formed`
                                 they are in no batch but those of this window;
* `Scheduler.step_departed`      from then on nothing but its own answer depends on whether a caller
                                 has left.

Who has left is read in two places: when a window is cut, and when an answer is told.
-/

namespace Coalesce

/-- not an answer to some ticket -/
def Effect.spares (ticket : Nat) : Effect → Bool
  | .answered u _ => u ≠ ticket
  | _ => true

theorem calls_spares (ticket : Nat) (effects : List Effect) :
    calls (effects.filter (Effect.spares ticket)) = calls effects := by
  unfold calls
  rw [List.filterMap_filter]
  refine List.filterMap_congr fun e _ => ?_
  cases e with
  | answered u result => split <;> rfl
  | _ => rfl

theorem answersTo_spares {ticket u : Nat} (other : u ≠ ticket) (effects : List Effect) :
    answersTo u (effects.filter (Effect.spares ticket)) = answersTo u effects := by
  induction effects with
  | nil => rfl
  | cons e rest ih =>
    have hcons : ∀ es, answersTo u (e :: es) = answersTo u [e] ++ answersTo u es := fun es =>
      answersTo_append u [e] es
    rw [List.filter_cons, hcons rest, ← ih]
    split
    · exact hcons _
    · rename_i htold
      -- an answer to that ticket is none to the other one
      cases e with
      | answered v result =>
        have hv : v = ticket := by simpa [Effect.spares] using htold
        have hnone : answersTo u [.answered v result] = [] := by
          unfold answersTo
          rw [List.map_eq_nil_iff, List.filter_eq_nil_iff]
          intro a ha hau
          rw [List.mem_singleton.mp ha] at hau
          exact other ((of_decide_eq_true hau).symm.trans hv)
        rw [hnone, List.nil_append]
      | called call batch => exact absurd rfl htold
      | crashed u => exact absurd rfl htold
      | noted notice => exact absurd rfl htold

theorem spares_called (ticket : Nat) (called : List Call) (batch : List Pending) :
    (called.map fun call => Effect.called call batch).filter (Effect.spares ticket)
      = called.map fun call => Effect.called call batch := by
  refine List.filter_eq_self.mpr fun e he => ?_
  obtain ⟨call, _, rfl⟩ := List.mem_map.mp he
  rfl

namespace Scheduler

/-! ## live requests -/

/-- Its caller has not left, and it can be answered in time. -/
def live (c : Scheduler) (left : List Nat) (now : Int) (p : Pending) : Bool :=
  p.ticket ∉ left && (c.inTime now p).isOk

theorem sift_live (c : Scheduler) (now : Int) (s : State) (items : List Pending) :
    (c.sift now s items).1 = items.filter (c.live s.left now) := by
  induction items with
  | nil => rfl
  | cons p rest ih =>
    unfold sift
    dsimp only
    split
    · rename_i hleft
      have hdead : ¬ c.live s.left now p = true := by simp [live, hleft]
      rw [List.filter_cons_of_neg hdead, ih]
    · rename_i hwaits
      split
      · rename_i limit hlimit
        have hlive : c.live s.left now p = true := by
          simp [live, hwaits, hlimit, Except.isOk, Except.toBool]
        rw [List.filter_cons_of_pos hlive, ih]
      · rename_i cause hlate
        have hdead : ¬ c.live s.left now p = true := by
          simp [live, hlate, Except.isOk, Except.toBool]
        rw [List.filter_cons_of_neg hdead, ih]

theorem Takes.formed_live {c : Scheduler} {m : Moment} {now : Int} {f : Flush}
    (takes : Takes m now f) :
    m.formed c = c.batches (f.items.filter (c.live m.state.left now)) := by
  rw [takes.formed, sift_live]

theorem takes_of_formed {c : Scheduler} {m : Moment} {b : List Pending} (hb : b ∈ m.formed c) :
    ∃ now f, Takes m now f := by
  unfold Moment.formed at hb
  split at hb
  · rename_i hevent hworking hqueue
    exact ⟨_, _, hevent, hworking, _, hqueue⟩
  · exact absurd hb List.not_mem_nil

/-! ## windows that are cut -/

def State.Cut (s : State) (ticket : Nat) : Prop := ∀ p ∈ s.upcoming, p.ticket ≠ ticket

section
variable {c : Scheduler} {s s' : State} {e : Event} {more : List Effect}

theorem Change.upcoming_subset (h : Change c s e s' more) :
    s'.upcoming ⊆ s.upcoming ++ e.arrivals := by
  unfold State.upcoming
  cases h with
  | waits _ window => rw [List.append_assoc]; exact List.Subset.refl _
  | flushed _ window =>
    rw [List.flatMap_append, List.flatMap_singleton, List.append_nil, List.append_assoc]
    exact List.Subset.refl _
  | lost _ window =>
    rw [List.append_nil, List.append_assoc]
    exact List.subset_append_left _ _
  | taken now f queue working next =>
    rw [next, List.flatMap_cons, List.append_assoc, List.append_assoc]
    refine List.Subset.trans ?_ (List.subset_append_right _ _)
    rw [← List.append_assoc]
    exact List.subset_append_left _ _
  | crashed =>
    refine List.Subset.trans (List.subset_append_right _ _) (List.subset_append_left _ _)
  | _ => exact List.subset_append_left _ _

theorem State.Cut.step {ticket : Nat} (h : s.Cut ticket) (e : Event)
    (other : ∀ p ∈ e.arrivals, p.ticket ≠ ticket) : (c.step s e).1.Cut ticket := by
  intro p hp
  rcases List.mem_append.mp ((c.step_change s e).upcoming_subset hp) with hp | hp
  · exact h p hp
  · exact other p hp

end

section
variable {c : Scheduler} {past : List Moment} {s : State} {effects : List Effect}

/-- Windows hold requests in the order of arrival, with none left out. -/
theorem History.windows_consecutive (h : c.History past s effects) :
    (∀ f ∈ s.queue, f.items.IsInfix (arrivals past)) ∧ s.pending.IsSuffix (arrivals past) := by
  induction h using History.by_changes with
  | start => exact ⟨fun f hf => absurd hf List.not_mem_nil, List.suffix_refl _⟩
  | next past s effects e s' more h _ change ih =>
    obtain ⟨hqueue, hpending⟩ := ih
    have hold : ∀ f ∈ s.queue, f.items.IsInfix (arrivals (past ++ [⟨s, e⟩])) := by
      intro f hf
      rw [arrivals_snoc]
      exact (hqueue f hf).trans (List.prefix_append _ _).isInfix
    have hlast : (s.pending ++ e.arrivals).IsSuffix (arrivals (past ++ [⟨s, e⟩])) := by
      rw [arrivals_snoc]
      obtain ⟨before, hbefore⟩ := hpending
      exact ⟨before, by rw [← List.append_assoc, hbefore]⟩
    have stays : e.arrivals = [] → s.pending.IsSuffix (arrivals (past ++ [⟨s, e⟩])) := by
      intro hnone
      rw [hnone, List.append_nil] at hlast
      exact hlast
    cases change with
    | waits _ window => exact ⟨hold, hlast⟩
    | flushed _ window =>
      refine ⟨fun f hf => ?_, List.nil_suffix⟩
      rcases List.mem_append.mp hf with hf | hf
      · exact hold f hf
      · rw [List.mem_singleton.mp hf]
        exact hlast.isInfix
    | lost _ window => exact ⟨hold, List.nil_suffix⟩
    | taken now f queue working next =>
      refine ⟨fun g hg => hold g ?_, stays rfl⟩
      rw [next]
      exact List.mem_cons_of_mem _ hg
    | idle _ served formed arrivals => exact ⟨hold, stays arrivals⟩
    | crashed => exact ⟨fun f hf => absurd hf List.not_mem_nil, stays rfl⟩
    | _ => exact ⟨hold, stays rfl⟩

theorem History.upcoming_once (h : c.History past s effects)
    (fresh : ((arrivals past).map (·.ticket)).Nodup) : (s.upcoming.map (·.ticket)).Nodup := by
  obtain ⟨others, hperm⟩ := h.formed_arrivals
  have hall : (arrivals past).Perm (s.upcoming ++ ((c.formed past).flatten ++ others)) := by
    unfold State.upcoming
    refine hperm.trans ?_
    rw [← List.append_assoc]
    exact List.perm_append_comm.append_right _
  have hnodup := (hall.map (·.ticket)).nodup_iff.mp fresh
  rw [List.map_append] at hnodup
  exact (List.nodup_append.mp hnodup).1

/-- Once a window is taken, none of its requests is upcoming any more. -/
theorem Takes.cut {m : Moment} (h : c.History past m.state effects)
    (fresh : ((arrivals past).map (·.ticket)).Nodup) {now : Int} {f : Flush} (takes : Takes m now f)
    {p : Pending} (hp : p ∈ f.items) : (c.step m.state m.event).1.Cut p.ticket := by
  have hnodup := h.upcoming_once fresh
  have change := c.step_change m.state m.event
  obtain ⟨queue, hqueue⟩ := takes.next
  have hupcoming : m.state.upcoming = f.items ++ (queue.flatMap Flush.items ++ m.state.pending) := by
    unfold State.upcoming
    rw [hqueue, List.flatMap_cons, List.append_assoc]
  have hafter : (c.step m.state m.event).1.upcoming
      = queue.flatMap Flush.items ++ m.state.pending := by
    rw [takes.event]
    show (c.take now m.state).1.upcoming = _
    unfold take
    rw [takes.working, hqueue]
    dsimp only
    split <;> rfl
  rw [hupcoming, List.map_append] at hnodup
  intro q hq heq
  rw [hafter] at hq
  exact (List.nodup_append.mp hnodup).2.2 _ (List.mem_map_of_mem hp) _ (List.mem_map_of_mem hq)
    heq.symm

theorem History.cut_after {before after : List Moment} {m : Moment}
    (h : c.History (before ++ m :: after) s effects)
    (fresh : ((arrivals (before ++ m :: after)).map (·.ticket)).Nodup) {now : Int} {f : Flush}
    (takes : Takes m now f) {p : Pending} (hp : p ∈ f.items) : s.Cut p.ticket := by
  induction after using List.reverseRecOn generalizing s effects with
  | nil =>
    obtain ⟨told, htold, rfl, _⟩ := h.last
    exact Takes.cut htold (fresh_first fresh) takes hp
  | append_singleton after n ih =>
    rw [← List.cons_append, ← List.append_assoc] at h fresh
    obtain ⟨told, htold, rfl, _⟩ := h.last
    refine (ih htold (fresh_first fresh)).step n.event fun q hq heq => ?_
    -- a ticket comes in once
    have hearlier : p ∈ arrivals (before ++ m :: after) := by
      obtain ⟨_, _, hbefore, _⟩ := htold.split
      have hqueued := hbefore.held_arrived (mem_held_of_queued (takes.queued hp))
      rw [arrivals_append]
      exact List.mem_append_left _ hqueued
    rw [arrivals_snoc, List.map_append] at fresh
    exact (List.nodup_append.mp fresh).2.2 _ (List.mem_map_of_mem hearlier) _
      (List.mem_map_of_mem hq) heq.symm

theorem History.taken (h : c.History past s effects)
    (fresh : ((arrivals past).map (·.ticket)).Nodup) {m : Moment} (one : m ∈ past) {now : Int}
    {f : Flush} (takes : Takes m now f) {p : Pending} (hp : p ∈ f.items) :
    p ∈ arrivals past ∧ s.Cut p.ticket := by
  refine ⟨h.held_before one (mem_held_of_queued (takes.queued hp)), ?_⟩
  obtain ⟨before, after, rfl⟩ := List.append_of_mem one
  exact h.cut_after fresh takes hp

/-- The requests of a window are in no batch but those that this window is cut into. -/
theorem History.window_formed (h : c.History past s effects)
    (fresh : ((arrivals past).map (·.ticket)).Nodup) {m : Moment} (one : m ∈ past) {now : Int}
    {f : Flush} (takes : Takes m now f) {p : Pending} (hp : p ∈ f.items) {b : List Pending}
    (hb : b ∈ c.formed past) (hpb : p ∈ b) : b ∈ m.formed c := by
  obtain ⟨before, after, rfl⟩ := List.append_of_mem one
  rw [List.append_cons, formed_append, formed_snoc, List.mem_append, List.mem_append] at hb
  rcases hb with (hb | hb) | hb
  · obtain ⟨_, _, hbefore, _⟩ := h.split
    have hunformed := hbefore.queued_unformed (fresh_first fresh) (takes.queued hp)
    exact absurd (List.mem_flatten.mpr ⟨b, hb, hpb⟩) hunformed
  · exact hb
  · obtain ⟨n, hn, hbn⟩ := List.mem_flatMap.mp hb
    obtain ⟨mid, rest, rfl⟩ := List.append_of_mem hn
    rw [← List.cons_append, ← List.append_assoc] at h fresh
    obtain ⟨_, _, hthen, _⟩ := h.split
    have hqueued := queued_of_formed (List.mem_flatten.mpr ⟨b, hbn, hpb⟩)
    exact absurd rfl (hthen.cut_after (fresh_first fresh) takes hp p (List.mem_append_left _ hqueued))

end

/-! ## a caller that leaves later -/

def State.departed (s : State) (left : List Nat) : State := { s with left }

/-- The others that have left are the same, and this one has left, too. -/
structure Departs (ticket : Nat) (left : List Nat) (s : State) : Prop where
  gone : ticket ∈ left
  others : ∀ u, u ≠ ticket → (u ∈ left ↔ u ∈ s.left)

section
variable {c : Scheduler} {s : State} {ticket : Nat} {left : List Nat}

theorem answer_departed (h : Departs ticket left s) (p : Pending) (result : Except Error Json) :
    answer (s.departed left) p result = (answer s p result).filter (Effect.spares ticket) := by
  have hleft : answer (s.departed left) p result
      = if p.ticket ∈ left then [] else [.answered p.ticket result] := rfl
  rw [hleft]
  unfold answer
  by_cases hp : p.ticket = ticket
  · have hspared : ¬ Effect.spares ticket (.answered p.ticket result) = true := by
      simp [Effect.spares, hp]
    rw [if_pos (hp ▸ h.gone)]
    split
    · rfl
    · rw [List.filter_cons_of_neg hspared, List.filter_nil]
  · have hspared : Effect.spares ticket (.answered p.ticket result) = true := decide_eq_true hp
    by_cases hin : p.ticket ∈ s.left
    · rw [if_pos hin, if_pos ((h.others p.ticket hp).mpr hin), List.filter_nil]
    · rw [if_neg hin, if_neg fun hl => hin ((h.others p.ticket hp).mp hl),
        List.filter_cons_of_pos hspared, List.filter_nil]

theorem answers_departed (h : Departs ticket left s) (ps : List Pending)
    (result : Pending → Except Error Json) :
    (ps.flatMap fun p => answer (s.departed left) p (result p))
      = (ps.flatMap fun p => answer s p (result p)).filter (Effect.spares ticket) := by
  rw [List.filter_flatMap]
  exact List.flatMap_congr fun p _ => answer_departed h p (result p)

theorem deliver_departed (h : Departs ticket left s) (ps : List Pending) (rs : List Json) :
    c.deliver (s.departed left) ps rs = (c.deliver s ps rs).filter (Effect.spares ticket) := by
  induction ps generalizing rs with
  | nil => cases rs <;> rfl
  | cons p ps ih =>
    cases rs with
    | nil => exact answers_departed h (p :: ps) fun _ => .error c.dropped
    | cons r rs =>
      rw [deliver, deliver, List.filter_append, ih, answer_departed h]

theorem ending_departed (h : Departs ticket left s) (members : List Pending)
    (outcome : Outcome (List Json)) :
    c.ending (s.departed left) members outcome
      = (c.ending s members outcome).filter (Effect.spares ticket) := by
  cases outcome with
  | done results => exact deliver_departed h members results
  | failed cause =>
    have hall := answers_departed h members fun _ => .error cause
    exact congrArg (.noted (.batchFailed c.target.name members.length cause) :: ·) hall
  | crashed => exact answers_departed h members fun _ => .error c.dropped

/-- Who is not in the window may leave or stay. -/
theorem sift_departed (h : Departs ticket left s) (now : Int) {items : List Pending}
    (others : ∀ p ∈ items, p.ticket ≠ ticket) :
    c.sift now (s.departed left) items
      = ((c.sift now s items).1, (c.sift now s items).2.filter (Effect.spares ticket)) := by
  induction items with
  | nil => rfl
  | cons p rest ih =>
    have hp : p.ticket ∈ (s.departed left).left ↔ p.ticket ∈ s.left :=
      h.others p.ticket (others p List.mem_cons_self)
    unfold sift
    rw [ih fun q hq => others q (List.mem_cons_of_mem _ hq)]
    dsimp only
    by_cases hleft : p.ticket ∈ s.left
    · rw [if_pos hleft, if_pos (hp.mpr hleft)]
    · rw [if_neg hleft, if_neg fun hin => hleft (hp.mp hin)]
      cases c.inTime now p with
      | ok limit => rfl
      | error cause =>
        dsimp only
        rw [List.filter_append, answer_departed h]

/-- The one comes to the same as the other, but for a caller that has left. -/
def Spared (ticket : Nat) (left : List Nat) (x y : State × List Effect) : Prop :=
  y = (x.1.departed left, x.2.filter (Effect.spares ticket))

theorem close_departed (h : Departs ticket left s) (trigger : Trigger) :
    Spared ticket left (c.close trigger s) (c.close trigger (s.departed left)) := by
  unfold Spared close State.departed
  dsimp only
  split
  · rfl
  · split
    · rfl
    · have hdrop := answers_departed h s.pending fun _ => .error c.dropped
      exact congrArg (Prod.mk _) (congrArg (.noted (.windowLost c.target.name s.pending.length) :: ·)
        hdrop)

theorem submit_departed (h : Departs ticket left s) (p : Pending) :
    Spared ticket left (c.submit p s) (c.submit p (s.departed left)) := by
  rw [submit_eq, submit_eq]
  show Spared ticket left _ (if c.settings.waitQueries ≤ (s.pending ++ [p]).length then _
    else if (s.pending ++ [p]).length = 1 then _ else _)
  split
  · have hwider : Departs ticket left { s with pending := s.pending ++ [p] } := ⟨h.gone, h.others⟩
    exact close_departed hwider .size
  · split
    · rfl
    · rfl

theorem expire_departed (h : Departs ticket left s) (generation : Nat) :
    Spared ticket left (c.expire generation s) (c.expire generation (s.departed left)) := by
  rw [expire_eq, expire_eq]
  show Spared ticket left _ (if s.timers.any fun t => t.generation = generation then
    if generation = s.generation then _ else _ else _)
  split
  · split
    · have hfired : Departs ticket left
          { s with timers := s.timers.filter fun t => t.generation ≠ generation } :=
        ⟨h.gone, h.others⟩
      exact close_departed hfired .timer
    · rfl
  · rfl

theorem take_departed (h : Departs ticket left s) (cut : s.Cut ticket) (now : Int) :
    Spared ticket left (c.take now s) (c.take now (s.departed left)) := by
  rcases next_or_idle s with ⟨f, queue, hworking, hnext⟩ | hidle
  · have hitems : ∀ p ∈ f.items, p.ticket ≠ ticket := by
      intro p hp
      refine cut p (List.mem_append_left _ ?_)
      rw [hnext, List.flatMap_cons]
      exact List.mem_append_left _ hp
    rw [c.take_next now hworking hnext, c.take_next now (s := s.departed left) hworking hnext,
      sift_departed h now hitems]
    show Spared ticket left _ (if (c.sift now s f.items).1.isEmpty then _ else _)
    split
    · rfl
    · unfold Spared
      rw [List.filter_append]
      rfl
  · rw [c.take_idle now hidle, c.take_idle now (s := s.departed left) hidle]
    rfl

theorem serve_departed (h : Departs ticket left s) (now : Int) (transport : Transport) :
    Spared ticket left (c.serve now transport s) (c.serve now transport (s.departed left)) := by
  cases hserving : Moment.serving? ⟨s, .serve now transport⟩ with
  | none =>
    have hserving' : Moment.serving? ⟨s.departed left, .serve now transport⟩ = none := hserving
    rw [c.serve_idle now transport hserving, c.serve_idle now transport hserving']
    rfl
  | some v =>
    obtain ⟨hevent, rest, hworking⟩ := serving?_eq_some hserving
    obtain ⟨rfl, rfl⟩ := Event.serve.inj hevent
    have hworking' : (s.departed left).worker = .working (v.batch :: rest) := hworking
    cases hprogress : v.progress c with
    | running exchange =>
      rw [c.serve_running hworking hprogress, c.serve_running hworking' hprogress]
      unfold Spared
      rw [spares_called]
      rfl
    | ended outcome =>
      by_cases halive : outcome = .crashed
      · subst halive
        rw [c.serve_crashed hworking hprogress, c.serve_crashed hworking' hprogress]
        unfold Spared
        have hdrop := answers_departed h (v.batch ++ rest.flatten ++ s.queue.flatMap Flush.items)
          fun _ => .error c.dropped
        rw [List.filter_append, spares_called]
        exact congrArg (fun effects => (_, _ ++ effects)) hdrop
      · rw [c.serve_ended hworking halive hprogress, c.serve_ended hworking' halive hprogress]
        unfold Spared
        rw [List.filter_append, spares_called, ending_departed h]
        rfl

theorem finish_departed (h : Departs ticket left s) (i call : Nat) (outcome : Outcome Json) :
    Spared ticket left (c.finish i call outcome s) (c.finish i call outcome (s.departed left)) := by
  rcases c.finish_cases i call outcome s with ⟨hnone, hs⟩ | ⟨d, hfound, hs⟩
  · rcases c.finish_cases i call outcome (s.departed left) with ⟨_, hs'⟩ | ⟨d, hfound, _⟩
    · rw [hs, hs']
      rfl
    · cases hnone.symm.trans hfound
  · rcases c.finish_cases i call outcome (s.departed left) with ⟨hnone, _⟩ | ⟨d', hfound', hs'⟩
    · cases hfound.symm.trans hnone
    · cases hfound.symm.trans hfound'
      rw [hs, hs']
      split
      · rfl
      · unfold Spared
        rw [ending_departed h]
        rfl

end

/-- who has left after an event -/
def Event.leavers (left : List Nat) : Event → List Nat
  | .leave u => u :: left
  | _ => left

section
variable {c : Scheduler} {s : State} {ticket : Nat} {left : List Nat}

theorem Change.keeps_left {s' : State} {e : Event} {more : List Effect}
    (h : Change c s e s' more) (stays : ∀ u, e ≠ .leave u) : s'.left = s.left := by
  cases h with
  | left u => exact absurd rfl (stays u)
  | _ => rfl

theorem step_left (c : Scheduler) (s : State) (e : Event) :
    (c.step s e).1.left = e.leavers s.left := by
  cases e with
  | leave u => rfl
  | _ => exact (c.step_change s _).keeps_left fun u h => by cases h

theorem Departs.step (h : Departs ticket left s) (e : Event) :
    Departs ticket (e.leavers left) (c.step s e).1 := by
  have hleft := c.step_left s e
  cases e with
  | leave u =>
    refine ⟨List.mem_cons_of_mem _ h.gone, fun v hv => ?_⟩
    rw [hleft]
    show v ∈ u :: left ↔ v ∈ u :: s.left
    rw [List.mem_cons, List.mem_cons]
    exact or_congr_right (h.others v hv)
  | _ => exact ⟨h.gone, fun v hv => by rw [hleft]; exact h.others v hv⟩

/-- **Whether a caller has left** once its window is cut is read for nothing but its own answer. -/
theorem step_departed (h : Departs ticket left s) (cut : s.Cut ticket) (e : Event) :
    c.step (s.departed left) e
      = ((c.step s e).1.departed (e.leavers left), (c.step s e).2.filter (Effect.spares ticket)) := by
  cases e with
  | submit p => exact submit_departed h p
  | leave u => rfl
  | expire generation => exact expire_departed h generation
  | flush => exact close_departed h .manual
  | take now => exact take_departed h cut now
  | serve now transport => exact serve_departed h now transport
  | finish id call outcome => exact finish_departed h id call outcome

end

end Scheduler

end Coalesce
