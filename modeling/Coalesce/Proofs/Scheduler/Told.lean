import Coalesce.Proofs.Dispatch.Execution
import Coalesce.Proofs.Scheduler.Batches

/-!
# Errors that are told

* `Effect.errors`, `Told`   the errors that effects tell, to callers or to operators, and what holds
                            of all of them;
* `Scheduler.Event.Gives`   the errors that come in with an event;
* `Scheduler.step_told`     a step tells errors that come in, those of the codec, and those of its own:
                            that there is no time left, or that no reply will come.

What may be told is a predicate on errors, as it is for the exchanges of a target.
-/

namespace Coalesce

def Effect.errors : Effect → List Error
  | .answered _ (.error cause) => [cause]
  | .noted notice => notice.error?.toList
  | _ => []

def Told (P : Error → Prop) (effects : List Effect) : Prop :=
  ∀ x ∈ effects, ∀ cause ∈ x.errors, P cause

theorem Told.append {P : Error → Prop} {first second : List Effect} (h : Told P first)
    (h' : Told P second) : Told P (first ++ second) := by
  intro x hx
  rcases List.mem_append.mp hx with hx | hx
  · exact h x hx
  · exact h' x hx

theorem told_noted (P : Error → Prop) {notice : Notice} (harmless : notice.error? = none) :
    Told P [.noted notice] := by
  intro x hx cause hcause
  rw [List.mem_singleton.mp hx] at hcause
  replace hcause : cause ∈ notice.error?.toList := hcause
  rw [harmless] at hcause
  exact absurd hcause List.not_mem_nil

theorem told_called (P : Error → Prop) (called : List Call) (batch : List Pending) :
    Told P (called.map fun call => Effect.called call batch) := by
  intro x hx cause hcause
  obtain ⟨call, _, rfl⟩ := List.mem_map.mp hx
  exact absurd hcause List.not_mem_nil

namespace Scheduler

/-- an error that comes in with an event -/
def Event.Gives : Event → Error → Prop
  | .serve _ transport, cause => transport.Gives cause
  | .finish _ _ outcome, cause => outcome = .failed cause
  | _, _ => False

section
variable {c : Scheduler} {P : Error → Prop} {s : State}

theorem told_answer (s : State) (p : Pending) {result : Except Error Json}
    (h : ∀ cause, result = .error cause → P cause) : Told P (answer s p result) := by
  intro x hx cause hcause
  unfold answer at hx
  split at hx
  · exact absurd hx List.not_mem_nil
  · rw [List.mem_singleton.mp hx] at hcause
    cases result with
    | ok value => exact absurd hcause List.not_mem_nil
    | error cause' => exact h cause (by rw [List.mem_singleton.mp hcause])

theorem told_answers (s : State) (ps : List Pending) {result : Pending → Except Error Json}
    (h : ∀ p cause, result p = .error cause → P cause) :
    Told P (ps.flatMap fun p => answer s p (result p)) := by
  intro x hx
  obtain ⟨p, _, hx⟩ := List.mem_flatMap.mp hx
  exact told_answer s p (h p) x hx

section
variable (dropped : P c.dropped)
include dropped

theorem told_drop (s : State) (ps : List Pending) : Told P (c.drop s ps) :=
  told_answers s ps fun _ cause h => by
    cases h
    exact dropped

theorem told_deliver (s : State) (ps : List Pending) (rs : List Json) :
    Told P (c.deliver s ps rs) := by
  induction ps generalizing rs with
  | nil => cases rs <;> exact fun x hx => absurd hx List.not_mem_nil
  | cons p ps ih =>
    cases rs with
    | nil => exact told_drop dropped s (p :: ps)
    | cons r rs => exact Told.append (told_answer s p fun cause h => by cases h) (ih rs)

theorem told_ending (s : State) (members : List Pending) {requests : List Request}
    {outcome : Outcome (List Json)} (fine : Progress.Fine c.target.codec requests P (.ended outcome)) :
    Told P (c.ending s members outcome) := by
  cases fine with
  | done results each => exact told_deliver dropped s members results
  | failed cause told =>
    have hall : Told P (members.flatMap fun p => answer s p (.error cause)) :=
      told_answers s members fun _ cause' h => by
        cases h
        exact told
    intro x hx
    rcases List.mem_cons.mp hx with rfl | hx
    · intro cause' hcause'
      rw [List.mem_singleton.mp hcause']
      exact told
    · exact hall x hx
  | crashed => exact told_drop dropped s members

end

theorem told_sift (late : ∀ deadline remaining, P (.timeout deadline remaining)) (now : Int)
    (items : List Pending) : Told P (c.sift now s items).2 := by
  induction items with
  | nil => exact fun x hx => absurd hx List.not_mem_nil
  | cons p rest ih =>
    unfold sift
    dsimp only
    split
    · exact ih
    · split
      · exact ih
      · rename_i cause hcause
        refine Told.append (told_answer s p fun cause' h => ?_) ih
        cases h
        obtain ⟨d, _, _, rfl⟩ := callTimeout_error.mp hcause
        exact late _ _

end

/-! ## steps -/

/-- all exchanges that are waited for are sound -/
def Sound (c : Scheduler) (P : Error → Prop) (s : State) : Prop :=
  ∀ d ∈ s.deliveries,
    d.exchange.Sound c.target.codec ((d.members.map (·.item)).map (·.request)) P

section
variable {c : Scheduler} {P : Error → Prop}
  (reads : ∀ call response cause, c.target.codec.decode call response = .failed cause → P cause)
  (writes : ∀ requests round cause,
    c.target.codec.encode requests round = .failed cause → P cause)
  (late : ∀ deadline remaining, P (.timeout deadline remaining)) (dropped : P c.dropped)
include reads writes late dropped

theorem Change.told {s s' : State} {e : Event} {more : List Effect} (h : Change c s e s' more)
    (ids : (s.deliveries.map (·.id)).Nodup) (sound : c.Sound P s)
    (given : ∀ cause, e.Gives cause → P cause) : c.Sound P s' ∧ Told P more := by
  have nothing : Told P [] := fun x hx => absurd hx List.not_mem_nil
  have starting : ∀ (now : Int) (transport : Transport) (members : List Pending),
      (∀ cause, transport.Gives cause → P cause) →
      (Serving.progress c ⟨now, transport, members⟩).Fine c.target.codec
        ((members.map (·.item)).map (·.request)) P :=
    fun now transport members hgiven => Target.start_fine reads late (writes _) now hgiven
  cases h with
  | waits => exact ⟨sound, nothing⟩
  | flushed => exact ⟨sound, nothing⟩
  | lost e window gone generation timers notice harmless =>
    exact ⟨sound, Told.append (told_noted P harmless) (told_drop dropped s _)⟩
  | left => exact ⟨sound, nothing⟩
  | taken now f queue working next notes silent =>
    refine ⟨sound, Told.append (told_sift late now f.items) fun x hx => ?_⟩
    obtain ⟨notice, rfl, harmless⟩ := silent x hx
    exact told_noted P harmless _ (List.mem_singleton_self _)
  | idle => exact ⟨sound, nothing⟩
  | started now transport members rest working exchange running =>
    refine ⟨fun d hd => ?_, told_called P _ _⟩
    rcases List.mem_append.mp hd with hd | hd
    · exact sound d hd
    · rw [List.mem_singleton.mp hd]
      have hfine := starting now transport members given
      rw [running] at hfine
      cases hfine with
      | running _ hsound => exact hsound
  | ended now transport members rest working outcome alive ends =>
    have hfine := starting now transport members given
    rw [ends] at hfine
    exact ⟨sound, Told.append (told_called P _ _) (told_ending dropped s members hfine)⟩
  | crashed now transport members rest working ends =>
    exact ⟨sound, Told.append (told_called P _ _) (told_drop dropped s _)⟩
  | resumed id call outcome d found exchange running =>
    refine ⟨fun d₁ hd₁ => ?_, nothing⟩
    obtain ⟨d₀, hd₀, rfl⟩ := List.mem_map.mp hd₁
    split
    · rename_i hid
      have hfine := Exchange.resume_fine reads (sound d (List.mem_of_find?_eq_some found)) call given
      rw [running] at hfine
      have hsame : d.id = id := by simpa using List.find?_some found
      obtain rfl := List.inj_on_of_nodup_map ids hd₀ (List.mem_of_find?_eq_some found)
        (hid.trans hsame.symm)
      cases hfine with
      | running _ hsound => exact hsound
    · exact sound d₀ hd₀
  | finished id call outcome d found result ends =>
    have hfine := Exchange.resume_fine reads (sound d (List.mem_of_find?_eq_some found)) call given
    rw [ends] at hfine
    exact ⟨fun d' hd' => sound d' (List.mem_filter.mp hd').1, told_ending dropped s _ hfine⟩

end

end Scheduler

end Coalesce
