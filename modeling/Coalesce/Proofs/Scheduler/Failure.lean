import Coalesce.Proofs.Scheduler.Frame
import Coalesce.Proofs.Scheduler.Once

/-!
# Batches that fail

* `Scheduler.History.around`   a run falls into what came before a moment and what comes from it on;
                               callers that have left by then are told nothing more;
* `Scheduler.Ends.held`        the members of a batch are held until it ends;
* `Scheduler.History.told_once`
                               what a request is told when it stops being held is all that it is told;
* `Scheduler.History.failed`   when a batch fails or crashes, all members whose callers wait are told
                               its error, and nothing else in the whole run.
-/

namespace Coalesce

theorem answersTo_append (ticket : Nat) (first second : List Effect) :
    answersTo ticket (first ++ second) = answersTo ticket first ++ answersTo ticket second := by
  unfold answersTo
  rw [answers_append, List.filter_append, List.map_append]

theorem mem_answersTo {ticket : Nat} {result : Except Error Json} {effects : List Effect} :
    result ∈ answersTo ticket effects ↔ (ticket, result) ∈ answers effects := by
  unfold answersTo
  constructor
  · intro h
    obtain ⟨⟨t, r⟩, ha, rfl⟩ := List.mem_map.mp h
    obtain ⟨hmem, ht⟩ := List.mem_filter.mp ha
    have hticket : t = ticket := of_decide_eq_true ht
    subst hticket
    exact hmem
  · intro h
    exact List.mem_map.mpr ⟨_, List.mem_filter.mpr ⟨h, decide_eq_true rfl⟩, rfl⟩

namespace Scheduler

/-! ## callers that have left -/

/-- nobody who has left is told anything -/
def Heard (s : State) (effects : List Effect) : Prop := ∀ a ∈ answers effects, a.1 ∉ s.left

section
variable {c : Scheduler} {s : State}

theorem heard_piecewise (s : State) : Piecewise (Heard s) where
  nil a ha := absurd ha List.not_mem_nil
  append h h' a ha := by
    rw [answers_append] at ha
    rcases List.mem_append.mp ha with ha | ha
    · exact h a ha
    · exact h' a ha
  noted _ a ha := absurd ha List.not_mem_nil

theorem heard_of_none {effects : List Effect} (h : answers effects = []) : Heard s effects := by
  intro a ha
  rw [h] at ha
  exact absurd ha List.not_mem_nil

theorem heard_answer (s : State) (p : Pending) (result : Except Error Json) :
    Heard s (answer s p result) := by
  intro a ha
  unfold answer at ha
  split at ha
  · exact absurd ha List.not_mem_nil
  · rename_i hwaits
    have htold : a = (p.ticket, result) := List.mem_singleton.mp ha
    rw [htold]
    exact hwaits

theorem Change.heard {s' : State} {e : Event} {more : List Effect} (h : Change c s e s' more) :
    Heard s more := by
  have hpieces := heard_piecewise s
  have hdrop : ∀ ps, Heard s (c.drop s ps) := fun ps =>
    hpieces.all (fun _ => .error c.dropped) fun p _ => heard_answer s p _
  have hending : ∀ members outcome, Heard s (c.ending s members outcome) := fun members outcome =>
    hpieces.ending c outcome fun p _ result => heard_answer s p result
  cases h with
  | lost => exact hdrop _
  | taken now f queue working next notes silent =>
    have hsift : Heard s (c.sift now s f.items).2 :=
      hpieces.sift c now fun p _ result => heard_answer s p result
    exact hpieces.append hsift (heard_of_none (answers_silent silent))
  | started => exact heard_of_none (answers_called _ _)
  | ended now transport members rest working outcome =>
    exact hpieces.append (heard_of_none (answers_called _ _)) (hending members outcome)
  | crashed => exact hpieces.append (heard_of_none (answers_called _ _)) (hdrop _)
  | finished id call outcome d found result => exact hending d.members result
  | _ => exact heard_of_none rfl

end

/-- What came before a moment, and what comes from it on: callers that have left by then are told
nothing more. -/
theorem History.around {c : Scheduler} {past : List Moment} {s : State} {effects : List Effect}
    (h : c.History past s effects) {m : Moment} (hm : m ∈ past) :
    ∃ before after told more, past = before ++ m :: after ∧ c.History before m.state told ∧
      effects = told ++ ((c.step m.state m.event).2 ++ more) ∧ m.state.left ⊆ s.left ∧
      ∀ ticket ∈ m.state.left, answersTo ticket ((c.step m.state m.event).2 ++ more) = [] := by
  have silent : ∀ {s : State} {more : List Effect} {ticket : Nat}, Heard s more → ticket ∈ s.left →
      answersTo ticket more = [] := by
    intro s more ticket hheard hleft
    refine List.eq_nil_iff_forall_not_mem.mpr fun result hresult => ?_
    exact hheard _ (mem_answersTo.mp hresult) hleft
  induction h with
  | start => exact absurd hm List.not_mem_nil
  | @next past s effects h e ih =>
    have hchange := c.step_change s e
    rcases List.mem_append.mp hm with hm | hm
    · obtain ⟨before, after, told, more, hpast, hbefore, heffects, hleft, hnothing⟩ := ih hm
      refine ⟨before, after ++ [⟨s, e⟩], told, more ++ (c.step s e).2, ?_, hbefore, ?_,
        List.Subset.trans hleft hchange.left_subset, fun ticket hticket => ?_⟩
      · rw [hpast, List.append_assoc]
        rfl
      · rw [heffects, List.append_assoc, List.append_assoc]
      · rw [← List.append_assoc, answersTo_append, hnothing ticket hticket,
          silent hchange.heard (hleft hticket)]
        rfl
    · rw [List.mem_singleton.mp hm]
      refine ⟨past, [], effects, [], rfl, h, ?_, hchange.left_subset, fun ticket hticket => ?_⟩
      · rw [List.append_nil]
      · rw [List.append_nil]
        exact silent hchange.heard hticket

/-! ## batches that end -/

theorem Ends.held {c : Scheduler} {m : Moment} {members : List Pending}
    {outcome : Outcome (List Json)} (h : c.Ends m members outcome) {p : Pending}
    (hp : p ∈ members) : p ∈ m.state.held := by
  unfold State.held
  refine List.mem_append_right _ (List.mem_append_right _ ?_)
  cases h with
  | atOnce m v outcome serving ended =>
    obtain ⟨_, rest, hworker⟩ := serving?_eq_some serving
    rw [hworker]
    exact List.mem_append_left _ (List.mem_flatten.mpr ⟨v.batch, List.mem_cons_self, hp⟩)
  | later s id call came d outcome found ended =>
    refine List.mem_append_right _ (List.mem_flatMap.mpr ⟨d, List.mem_of_find?_eq_some found, hp⟩)

theorem Ends.effects {c : Scheduler} {m : Moment} {members : List Pending}
    {outcome : Outcome (List Json)} (h : c.Ends m members outcome) :
    ∃ first last, (c.step m.state m.event).2 = first ++ (c.ending m.state members outcome ++ last) := by
  cases h with
  | atOnce m v outcome serving ended =>
    obtain ⟨hevent, rest, hworking⟩ := serving?_eq_some serving
    rw [hevent]
    by_cases hcrashed : outcome = .crashed
    · subst hcrashed
      refine ⟨(v.called c).map fun call => Effect.called call v.batch,
        c.drop m.state (rest.flatten ++ m.state.queue.flatMap Flush.items), ?_⟩
      have hserve := congrArg Prod.snd (serve_crashed c hworking ended)
      rw [List.append_assoc v.batch] at hserve
      exact hserve.trans (congrArg (_ ++ ·) List.flatMap_append)
    · have hserve := congrArg Prod.snd (serve_ended c hworking hcrashed ended)
      exact ⟨_, [], hserve.trans (congrArg (_ ++ ·) (List.append_nil _).symm)⟩
  | later s id call came d outcome found ended =>
    refine ⟨[], [], ?_⟩
    obtain ⟨hnone, _⟩ | ⟨d', hfound, hfinish⟩ := finish_cases c id call came s
    · rw [found] at hnone
      cases hnone
    · rw [found] at hfound
      cases hfound
      rw [ended] at hfinish
      exact (congrArg Prod.snd hfinish).trans (List.append_nil _).symm

theorem History.held_arrived {c : Scheduler} {past : List Moment} {s : State} {effects : List Effect}
    (h : c.History past s effects) {p : Pending} (held : p ∈ s.held) : p ∈ arrivals past := by
  obtain ⟨out, hperm, _, _⟩ := h.custody
  exact hperm.mem_iff.mpr (List.mem_append_left _ held)

theorem History.held_before {c : Scheduler} {past : List Moment} {s : State} {effects : List Effect}
    (h : c.History past s effects) {m : Moment} (hm : m ∈ past) {p : Pending}
    (held : p ∈ m.state.held) : p ∈ arrivals past := by
  obtain ⟨before, after, _, rfl, hbefore⟩ := h.before hm
  rw [arrivals_append]
  exact List.mem_append_left _ (hbefore.held_arrived held)

theorem fresh_first {first second : List Moment}
    (fresh : ((arrivals (first ++ second)).map (·.ticket)).Nodup) :
    ((arrivals first).map (·.ticket)).Nodup := by
  rw [arrivals_append, List.map_append] at fresh
  exact (List.nodup_append.mp fresh).1

/-- As long as a request is held, it is told nothing. -/
theorem History.held_untold {c : Scheduler} {past : List Moment} {s : State} {effects : List Effect}
    (h : c.History past s effects) (fresh : ((arrivals past).map (·.ticket)).Nodup) {p : Pending}
    (held : p ∈ s.held) : answersTo p.ticket effects = [] := by
  rcases h.fate fresh (h.held_arrived held) with ⟨_, _, hnone⟩ | ⟨o, hplaces, _, _⟩
  · exact hnone
  · have hnot := List.filter_eq_nil_iff.mp (List.map_eq_nil_iff.mp hplaces)
    rw [← located_held] at held
    obtain ⟨x, hx, rfl⟩ := List.mem_map.mp held
    exact absurd (decide_eq_true rfl) (hnot x hx)

/-- A request that is held until some moment and told something then is told nothing else, and
nothing at all if its caller has left by then. -/
theorem History.told_once {c : Scheduler} {past : List Moment} {s : State} {effects : List Effect}
    (h : c.History past s effects) (fresh : ((arrivals past).map (·.ticket)).Nodup) {m : Moment}
    (hm : m ∈ past) {p : Pending} (held : p ∈ m.state.held) {result : Except Error Json}
    (told : p.ticket ∉ m.state.left → (p.ticket, result) ∈ answers (c.step m.state m.event).2) :
    answersTo p.ticket effects = if p.ticket ∈ m.state.left then [] else [result] := by
  obtain ⟨before, after, earlier, more, rfl, hbefore, heffects, _, hnothing⟩ := h.around hm
  have hearlier := hbefore.held_untold (fresh_first fresh) held
  split
  · rename_i hleft
    rw [heffects, answersTo_append, hearlier, hnothing _ hleft]
    rfl
  · rename_i hwaits
    have hanswer : result ∈ answersTo p.ticket effects := by
      rw [mem_answersTo, heffects, answers_append, answers_append]
      exact List.mem_append_right _ (List.mem_append_left _ (told hwaits))
    rcases h.fate fresh (h.held_before hm held) with ⟨_, _, hnone⟩ | ⟨o, _, ho, _⟩
    · rw [hnone] at hanswer
      exact absurd hanswer List.not_mem_nil
    · rw [ho] at hanswer ⊢
      cases o with
      | none => exact absurd hanswer List.not_mem_nil
      | some other =>
        rw [List.mem_singleton.mp hanswer]
        rfl

theorem mem_answers_all {s : State} {ps : List Pending} {p : Pending} (hp : p ∈ ps)
    (hwaits : p.ticket ∉ s.left) (result : Pending → Except Error Json) :
    (p.ticket, result p) ∈ answers (ps.flatMap fun p => answer s p (result p)) := by
  rw [answers_all]
  refine List.mem_filterMap.mpr ⟨_, List.mem_map.mpr ⟨p, hp, rfl⟩, ?_⟩
  unfold settle
  rw [if_neg hwaits]
  rfl

/-- the error of all members of a batch that does not end well -/
def failure? (c : Scheduler) : Outcome (List Json) → Option Error
  | .done _ => none
  | .failed cause => some cause
  | .crashed => some c.dropped

theorem mem_answers_ending {c : Scheduler} {s : State} {members : List Pending}
    {outcome : Outcome (List Json)} {cause : Error} (fails : c.failure? outcome = some cause)
    {p : Pending} (hp : p ∈ members) (hwaits : p.ticket ∉ s.left) :
    (p.ticket, .error cause) ∈ answers (c.ending s members outcome) := by
  cases outcome with
  | done results => cases fails
  | failed cause =>
    cases fails
    exact mem_answers_all hp hwaits fun _ => .error cause
  | crashed =>
    cases fails
    exact mem_answers_all hp hwaits fun _ => .error c.dropped

/-- When a batch fails or crashes, each member is told its error if its caller has not left by then,
and nothing else; a member whose caller has left is told nothing. -/
theorem History.failed {c : Scheduler} {past : List Moment} {s : State} {effects : List Effect}
    (h : c.History past s effects) (fresh : ((arrivals past).map (·.ticket)).Nodup) {m : Moment}
    (hm : m ∈ past) {members : List Pending} {outcome : Outcome (List Json)}
    (hends : c.Ends m members outcome) {cause : Error} (fails : c.failure? outcome = some cause)
    {p : Pending} (hp : p ∈ members) :
    answersTo p.ticket effects = if p.ticket ∈ m.state.left then [] else [.error cause] := by
  refine h.told_once fresh hm (hends.held hp) fun hwaits => ?_
  obtain ⟨first, last, hstep⟩ := hends.effects
  rw [hstep, answers_append, answers_append]
  exact List.mem_append_right _ (List.mem_append_left _ (mem_answers_ending fails hp hwaits))

end Scheduler

end Coalesce
