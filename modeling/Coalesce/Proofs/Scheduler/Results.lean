import Coalesce.Proofs.Scheduler.Custody

/-!
# Results of a scheduler

* `carried`                        the requests that a call answers for;
* `Target.callsFor_carries`        the calls for a batch answer for each member at most once;
* `Scheduler.History.calls_eq`     calls are started for the batches served, and for nothing else;
* `Scheduler.History.result_origin`
                                   a result that is told to a request comes out of the response to a
                                   call of its batch, at the place that belongs to it.
-/

namespace Coalesce

def carried (x : Call × List Pending) : List Pending := x.1.members.filterMap fun i => x.2[i]?

/-- at most one has some element, if none has one twice -/
theorem filter_holding {α β : Type} [DecidableEq β] (f : α → List β) {l : List α}
    (h : (l.flatMap f).Nodup) {a : α} (ha : a ∈ l) {b : β} (hb : b ∈ f a) :
    (l.filter fun x => b ∈ f x) = [a] := by
  induction l with
  | nil => exact absurd ha List.not_mem_nil
  | cons x rest ih =>
    rw [List.flatMap_cons] at h
    obtain ⟨_, hrest, hdisjoint⟩ := List.nodup_append.mp h
    rw [List.filter_cons]
    rcases List.mem_cons.mp ha with rfl | ha
    · have hnone : (rest.filter fun x => b ∈ f x) = [] := by
        refine List.filter_eq_nil_iff.mpr fun y hy hby => ?_
        exact hdisjoint b hb b (List.mem_flatMap.mpr ⟨y, hy, of_decide_eq_true hby⟩) rfl
      rw [if_pos (decide_eq_true hb), hnone]
    · have hx : b ∉ f x := fun hbx =>
        hdisjoint b hbx b (List.mem_flatMap.mpr ⟨a, ha, hb⟩) rfl
      rw [if_neg (by simpa using hx)]
      exact ih hrest ha

/-- the calls for a batch, with the batch -/
def Target.callsFor (t : Target) (v : Scheduler.Serving) : List (Call × List Pending) :=
  (t.start v.now v.transport (v.batch.map (·.item))).1.map fun call => (call, v.batch)

/-- They answer for each member at most once. -/
theorem Target.callsFor_carries (t : Target) (v : Scheduler.Serving) :
    ∃ others, v.batch.Perm ((t.callsFor v).flatMap carried ++ others) := by
  unfold callsFor
  obtain ⟨_, hs, _⟩ | ⟨s, started, p, hships, hl, hs⟩ :=
    t.start_cases v.now v.transport (v.batch.map (·.item))
  · rw [congrArg Prod.fst hs]
    exact ⟨v.batch, List.Perm.refl _⟩
  · obtain ⟨tail, htail⟩ := hl.first
    have hmembers := Codec.encode_members hships.encode
    rw [List.length_map, List.length_map, ← htail, List.flatMap_append] at hmembers
    have hcarried : ((started.map (t.call s)).map fun call => (call, v.batch)).flatMap carried
        = (started.flatMap (·.members)).filterMap fun i => v.batch[i]? := by
      rw [List.map_map, List.flatMap_map, List.filterMap_flatMap]
      rfl
    have hall := hmembers.filterMap fun i => v.batch[i]?
    rw [Scheduler.range_filterMap, List.filterMap_append, ← hcarried] at hall
    rw [congrArg Prod.fst hs]
    exact ⟨_, hall.symm⟩

namespace Scheduler

/-! ## calls -/

/-- the calls for a batch, with the batch -/
def Serving.calls (c : Scheduler) (v : Serving) : List (Call × List Pending) :=
  (v.called c).map fun call => (call, v.batch)

theorem Serving.carries (c : Scheduler) (v : Serving) :
    ∃ others, v.batch.Perm ((v.calls c).flatMap carried ++ others) :=
  c.target.callsFor_carries v

theorem calls_answer (s : State) (p : Pending) (result : Except Error Json) :
    calls (answer s p result) = [] := by
  unfold answer
  split <;> rfl

theorem calls_piecewise : Piecewise fun effects => calls effects = [] where
  nil := rfl
  append h h' := by rw [calls_append, h, h', List.append_nil]
  noted _ := rfl

theorem calls_drop (c : Scheduler) (s : State) (ps : List Pending) : calls (c.drop s ps) = [] :=
  calls_piecewise.all (fun _ => .error c.dropped) fun p _ => calls_answer s p _

theorem calls_ending (c : Scheduler) (s : State) (members : List Pending)
    (outcome : Outcome (List Json)) : calls (c.ending s members outcome) = [] :=
  calls_piecewise.ending c outcome fun p _ result => calls_answer s p result

theorem calls_sift (c : Scheduler) (now : Int) (s : State) (items : List Pending) :
    calls (c.sift now s items).2 = [] :=
  calls_piecewise.sift c now fun p _ result => calls_answer s p result

theorem calls_silent {notes : List Effect} (h : Silent notes) : calls notes = [] := by
  refine List.filterMap_eq_nil_iff.mpr fun e he => ?_
  obtain ⟨notice, rfl, _⟩ := h e he
  rfl

/-- the calls of a change are those for the batch that is served -/
theorem Change.calls_eq {c : Scheduler} {s s' : State} {e : Event} {more : List Effect}
    (h : Change c s e s' more) :
    calls more = (Moment.serving? ⟨s, e⟩).toList.flatMap (Serving.calls c) := by
  have quiet : Moment.serving? ⟨s, e⟩ = none → calls more = [] →
      calls more = (Moment.serving? ⟨s, e⟩).toList.flatMap (Serving.calls c) := by
    intro hserving hmore
    rw [hserving, hmore]
    rfl
  have serves : ∀ (now : Int) (transport : Transport) (members : List Pending)
      (rest : List (List Pending)), s.worker = .working (members :: rest) →
      e = .serve now transport → calls more = (Serving.calls c ⟨now, transport, members⟩) →
      calls more = (Moment.serving? ⟨s, e⟩).toList.flatMap (Serving.calls c) := by
    intro now transport members rest working he hmore
    subst he
    rw [hmore, serving?_serve now transport working, Option.toList_some, List.flatMap_singleton]
  cases h with
  | waits _ window => exact quiet (serving?_ofWindow window) rfl
  | flushed _ window => exact quiet (serving?_ofWindow window) rfl
  | lost _ window => exact quiet (serving?_ofWindow window) (c.calls_drop s _)
  | left ticket => exact quiet rfl rfl
  | taken now f queue working next notes silent =>
    refine quiet rfl ?_
    rw [calls_append, calls_sift, calls_silent silent]
    rfl
  | idle _ served => exact quiet served rfl
  | started now transport members rest working exchange running =>
    exact serves now transport members rest working rfl (calls_called _ _)
  | ended now transport members rest working outcome =>
    refine serves now transport members rest working rfl ?_
    rw [calls_append, calls_called, calls_ending, List.append_nil]
    rfl
  | crashed now transport members rest working =>
    refine serves now transport members rest working rfl ?_
    rw [calls_append, calls_called, calls_drop, List.append_nil]
    rfl
  | resumed => exact quiet rfl rfl
  | finished id call outcome d found result => exact quiet rfl (c.calls_ending s d.members result)

theorem History.calls_eq {c : Scheduler} {past : List Moment} {s : State} {effects : List Effect}
    (h : c.History past s effects) : calls effects = (servings past).flatMap (Serving.calls c) := by
  induction h using History.by_changes with
  | start => rfl
  | next past s effects e s' more h _ change ih =>
    rw [calls_append, change.calls_eq, servings_snoc, List.flatMap_append, ih]

theorem Serving.carries_all (c : Scheduler) (vs : List Serving) :
    ∃ others, (vs.map (·.batch)).flatten.Perm
      ((vs.flatMap (Serving.calls c)).flatMap carried ++ others) := by
  induction vs with
  | nil => exact ⟨[], List.Perm.refl _⟩
  | cons v vs ih =>
    obtain ⟨others, hperm⟩ := ih
    obtain ⟨own, hown⟩ := v.carries c
    refine ⟨own ++ others, Multiset.coe_eq_coe.mp ?_⟩
    have hrest := Multiset.coe_eq_coe.mpr hperm
    have hv := Multiset.coe_eq_coe.mpr hown
    simp only [List.map_cons, List.flatten_cons, List.flatMap_cons, List.flatMap_append,
      ← Multiset.coe_add] at hrest hv ⊢
    rw [hv, hrest]
    abel

theorem History.carried_formed {c : Scheduler} {past : List Moment} {s : State}
    {effects : List Effect} (h : c.History past s effects) :
    ∃ others, (c.formed past).flatten.Perm ((calls effects).flatMap carried ++ others) := by
  obtain ⟨rest, hformed, _⟩ := h.formed_eq
  obtain ⟨others, hperm⟩ := Serving.carries_all c (servings past)
  refine ⟨others ++ rest.flatten, ?_⟩
  rw [hformed, List.flatten_append, h.calls_eq, ← List.append_assoc]
  exact hperm.append_right _

/-! ## results -/

/-- A result that is told to a request comes out of the response to a call of its batch, at the
place that belongs to it. -/
theorem History.result_origin {c : Scheduler} {past : List Moment} {s : State}
    {effects : List Effect} (h : c.History past s effects) {ticket : Nat} {value : Json}
    (hanswer : (ticket, .ok value) ∈ answers effects) :
    ∃ p ∈ arrivals past, p.ticket = ticket ∧ ∃ id v i k call response,
      (servings past)[id]? = some v ∧ v.batch[i]? = some p ∧ (v.called c)[k]? = some call ∧
      i ∈ call.members ∧ c.CameBack past id k response ∧
      c.target.codec.Holds (v.batch.map fun p => p.item.request) v.transport.round call.body
        call.members i response value := by
  obtain ⟨out, hperm, htold, hdue⟩ := h.custody
  rw [htold] at hanswer
  obtain ⟨⟨p, o⟩, hx, hresult⟩ := List.mem_filterMap.mp hanswer
  obtain ⟨result, rfl, htr⟩ := Option.map_eq_some_iff.mp hresult
  obtain ⟨hticket, rfl⟩ := Prod.mk.inj htr
  have hp : p ∈ arrivals past :=
    hperm.mem_iff.mpr (List.mem_append_right _ (List.mem_map.mpr ⟨_, hx, rfl⟩))
  refine ⟨p, hp, hticket, ?_⟩
  cases (hdue _ hx : c.Reason past p (.ok value)) with
  | value m members results i _ one ends member result =>
    obtain ⟨before, after, effects', rfl, hbefore⟩ := h.before one
    have hne : members ≠ [] := List.ne_nil_of_mem (List.mem_of_getElem? member)
    obtain ⟨id, v, ship, hv, rfl, hships, hcalled, hanswers⟩ :=
      (hbefore.answers_of_ends ends).2 hne
    obtain ⟨k, call, response, hk, hi, hcame, hholds⟩ := hanswers i value result
    have hpast : before ++ m :: after = (before ++ [m]) ++ after := by
      rw [List.append_assoc]
      rfl
    rw [hpast]
    refine
      ⟨id, v, i, k, c.target.call ship call, response, ?_, member, ?_, hi, hcame.mono after, ?_⟩
    · rw [servings_append, List.getElem?_append_left (List.getElem?_eq_some_iff.mp hv).1]
      exact hv
    · rw [hcalled, List.getElem?_map, hk]
      rfl
    · rw [List.map_map] at hholds
      exact hholds

end Scheduler

end Coalesce
