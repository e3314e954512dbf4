import Coalesce.Proofs.Scheduler.Frame

/-!
# Schedulers that differ in one batch

* `outside`                 what some effects are to all but the requests with some tickets;
* `Scheduler.Apart`         two states that differ in what one batch waits for, if it waits at all;
* `Scheduler.Change.own`, `Scheduler.Change.serves`
                            what becomes of the batch itself is nothing to others, unless it crashes
                            when it is served;
* `Scheduler.Apart.step`    the same event keeps states apart in this alone, also under codecs that
                            agree on the other batches, and is the same to others.

The batch is told by its number.
-/

namespace Coalesce

/-! ## effects for others -/

/-- Whether an effect is one for others than the requests with some tickets; notices are for
nobody. -/
def Effect.outside (tickets : List Nat) : Effect → Bool
  | .called _ batch => batch.all fun p => p.ticket ∉ tickets
  | .answered ticket _ | .crashed ticket => ticket ∉ tickets
  | .noted _ => false

def outside (tickets : List Nat) (effects : List Effect) : List Effect :=
  effects.filter (Effect.outside tickets)

theorem outside_append (tickets : List Nat) (first second : List Effect) :
    outside tickets (first ++ second) = outside tickets first ++ outside tickets second :=
  List.filter_append _ _

theorem answers_outside (tickets : List Nat) (effects : List Effect) :
    answers (outside tickets effects) = (answers effects).filter fun a => a.1 ∉ tickets := by
  induction effects with
  | nil => rfl
  | cons e rest ih =>
    have hone : answers (outside tickets [e]) = (answers [e]).filter fun a => a.1 ∉ tickets := by
      unfold outside answers
      rw [List.filter_cons]
      cases e with
      | called call batch => split <;> rfl
      | answered ticket result =>
        by_cases hin : ticket ∈ tickets
        · simp [Effect.outside, Effect.answer?, hin]
        · simp [Effect.outside, Effect.answer?, hin]
      | crashed ticket => split <;> rfl
      | noted notice => rfl
    have hcons : e :: rest = [e] ++ rest := rfl
    rw [hcons, outside_append, answers_append, answers_append, List.filter_append, hone, ih]

/-- an answer to somebody else is among the effects for others -/
theorem answersTo_outside {tickets : List Nat} {ticket : Nat} (hticket : ticket ∉ tickets)
    (effects : List Effect) : answersTo ticket (outside tickets effects) = answersTo ticket effects := by
  unfold answersTo
  rw [answers_outside, List.filter_filter]
  refine congrArg _ (List.filter_congr fun a _ => ?_)
  by_cases ha : a.1 = ticket
  · simp [ha, hticket]
  · simp [ha]

namespace Scheduler

theorem outside_answer {tickets : List Nat} (s : State) {p : Pending} (hp : p.ticket ∈ tickets)
    (result : Except Error Json) : outside tickets (answer s p result) = [] := by
  unfold answer
  split
  · rfl
  · have hin : ¬ Effect.outside tickets (.answered p.ticket result) = true := fun h =>
      of_decide_eq_true h hp
    unfold outside
    rw [List.filter_cons, if_neg hin]
    rfl

theorem outside_piecewise (tickets : List Nat) :
    Piecewise fun effects => outside tickets effects = [] where
  nil := rfl
  append h h' := by rw [outside_append, h, h', List.append_nil]
  noted _ := rfl

theorem outside_ending {tickets : List Nat} (c : Scheduler) (s : State) {members : List Pending}
    (hmembers : ∀ p ∈ members, p.ticket ∈ tickets) (outcome : Outcome (List Json)) :
    outside tickets (c.ending s members outcome) = [] :=
  (outside_piecewise tickets).ending c outcome fun p hp => outside_answer s (hmembers p hp)

theorem outside_called {tickets : List Nat} (c : Scheduler) (v : Serving)
    (hbatch : ∀ p ∈ v.batch, p.ticket ∈ tickets) :
    outside tickets ((v.called c).map fun call => Effect.called call v.batch) = [] := by
  refine List.filter_eq_nil_iff.mpr fun e he hout => ?_
  obtain ⟨call, hcall, rfl⟩ := List.mem_map.mp he
  cases hv : v.batch with
  | nil =>
    have hnone : v.called c = [] := by
      unfold Serving.called
      rw [hv]
      rfl
    rw [hnone] at hcall
    exact absurd hcall List.not_mem_nil
  | cons p rest =>
    have hp : p ∈ v.batch := by
      rw [hv]
      exact List.mem_cons_self
    exact of_decide_eq_true (List.all_eq_true.mp hout p hp) (hbatch p hp)

/-! ## apart in one batch -/

/-- States that differ in what the batch with some number waits for, which has members with some
tickets. -/
structure Apart (id : Nat) (tickets : List Nat) (s t : State) : Prop where
  same : t = s.awaiting t.deliveries
  others : (s.deliveries.filter fun d => d.id ≠ id) = t.deliveries.filter fun d => d.id ≠ id
  own : ∀ d ∈ s.deliveries, d.id = id → ∀ p ∈ d.members, p.ticket ∈ tickets
  own' : ∀ d ∈ t.deliveries, d.id = id → ∀ p ∈ d.members, p.ticket ∈ tickets

section
variable {id : Nat} {tickets : List Nat} {s t u : State}

theorem Apart.symm (h : Apart id tickets s t) : Apart id tickets t s where
  same := by
    rw [h.same]
    rfl
  others := h.others.symm
  own := h.own'
  own' := h.own

theorem Apart.trans (h : Apart id tickets s t) (h' : Apart id tickets t u) :
    Apart id tickets s u where
  same := by
    rw [h'.same, h.same]
    rfl
  others := h.others.trans h'.others
  own := h.own
  own' := h'.own'

/-- the next batch is taken in hand -/
theorem Apart.next (h : Apart id tickets s t) (rest : List (List Pending)) :
    Apart id tickets { s with worker := .working rest, nextDelivery := s.nextDelivery + 1 }
      { t with worker := .working rest, nextDelivery := t.nextDelivery + 1 } where
  same := by
    rw [h.same]
    rfl
  others := h.others
  own := h.own
  own' := h.own'

/-- A call for the batch comes back: that is nothing to others. -/
theorem Change.own {c : Scheduler} {call : Nat} {outcome : Outcome Json} {s' : State}
    {more : List Effect} (h : Change c s (.finish id call outcome) s' more)
    (own : ∀ d ∈ s.deliveries, d.id = id → ∀ p ∈ d.members, p.ticket ∈ tickets) :
    Apart id tickets s s' ∧ outside tickets more = [] := by
  cases h with
  | waits _ window => cases window
  | flushed _ window => cases window
  | lost _ window => cases window
  | idle => exact ⟨⟨rfl, rfl, own, own⟩, rfl⟩
  | resumed _ _ _ d found exchange running =>
    refine ⟨⟨rfl, (Delivery.filter_update_own id exchange s.deliveries).symm, own,
      fun d' hd' hid => ?_⟩, rfl⟩
    have hupdated : d' ∈ s.deliveries.map (Delivery.update id exchange) := hd'
    obtain ⟨d₀, hd₀, rfl⟩ := List.mem_map.mp hupdated
    rw [Delivery.update_id] at hid
    rw [Delivery.update_members]
    exact own d₀ hd₀ hid
  | finished _ _ _ d found result ends =>
    have hmem : d ∈ s.deliveries := List.mem_of_find?_eq_some found
    have hid : d.id = id := by simpa using List.find?_some found
    refine ⟨⟨rfl, ?_, own, fun d' hd' hd'id => ?_⟩, c.outside_ending s (own d hmem hid) result⟩
    · show _ = (s.deliveries.filter _).filter _
      rw [List.filter_filter]
      simp
    · exact own d' (List.mem_filter.mp hd').1 hd'id

/-- The batch is served and does not crash: that is nothing to others. -/
theorem Change.serves {c : Scheduler} {now : Int} {transport : Transport} {s' : State}
    {more : List Effect} (h : Change c s (.serve now transport) s' more) {batch : List Pending}
    {rest : List (List Pending)} (working : s.worker = .working (batch :: rest))
    (number : s.nextDelivery = id)
    (alive : Serving.progress c ⟨now, transport, batch⟩ ≠ .ended .crashed)
    (members : ∀ p ∈ batch, p.ticket ∈ tickets)
    (own : ∀ d ∈ s.deliveries, d.id = id → ∀ p ∈ d.members, p.ticket ∈ tickets) :
    Apart id tickets { s with worker := .working rest, nextDelivery := s.nextDelivery + 1 } s' ∧
      outside tickets more = [] := by
  have hcalled := outside_called c ⟨now, transport, batch⟩ members
  have same : ∀ {members : List Pending} {others : List (List Pending)},
      s.worker = .working (members :: others) → members = batch ∧ others = rest := by
    intro members others hworker
    rw [working] at hworker
    cases hworker
    exact ⟨rfl, rfl⟩
  cases h with
  | waits _ window => cases window
  | flushed _ window => cases window
  | lost _ window => cases window
  | idle _ served =>
    rw [serving?_serve now transport working] at served
    cases served
  | started _ _ _ _ hworker exchange running =>
    obtain ⟨rfl, rfl⟩ := same hworker
    refine ⟨⟨rfl, ?_, own, fun d hd hid => ?_⟩, hcalled⟩
    · show _ = (s.deliveries ++ [_]).filter _
      rw [List.filter_append, List.filter_cons, if_neg (by simpa using number)]
      exact (List.append_nil _).symm
    · rcases List.mem_append.mp hd with hd | hd
      · exact own d hd hid
      · rw [List.mem_singleton.mp hd]
        exact members
  | ended _ _ _ _ hworker outcome =>
    obtain ⟨rfl, rfl⟩ := same hworker
    refine ⟨⟨rfl, rfl, own, own⟩, ?_⟩
    rw [outside_append, hcalled, c.outside_ending s members outcome]
    rfl
  | crashed _ _ _ _ hworker crashed =>
    obtain ⟨rfl, rfl⟩ := same hworker
    exact absurd crashed alive

/-! ## the same event in both -/

theorem Apart.serve {c : Scheduler} {k : Codec} (h : Apart id tickets s t) (now : Int)
    (transport : Transport)
    (other : ∀ v, Moment.serving? ⟨s, .serve now transport⟩ = some v → s.nextDelivery ≠ id ∧
      c.target.codec.Agree k v.transport.round ((v.batch.map (·.item)).map (·.request))) :
    Apart id tickets (c.serve now transport s).1 ((c.withCodec k).serve now transport t).1 ∧
      (c.serve now transport s).2 = ((c.withCodec k).serve now transport t).2 := by
  obtain ⟨hsame, hothers, own, own'⟩ := h
  generalize t.deliveries = ds at hsame hothers own'
  subst hsame
  cases hserving : Moment.serving? ⟨s, .serve now transport⟩ with
  | none =>
    have hserving' : Moment.serving? ⟨s.awaiting ds, .serve now transport⟩ = none := hserving
    rw [serve_idle c now transport hserving, serve_idle (c.withCodec k) now transport hserving']
    exact ⟨⟨rfl, hothers, own, own'⟩, rfl⟩
  | some v =>
    obtain ⟨hnumber, hagree⟩ := other v hserving
    obtain ⟨hevent, rest, hworking⟩ := serving?_eq_some hserving
    obtain ⟨rfl, rfl⟩ : now = v.now ∧ transport = v.transport := by
      cases hevent
      exact ⟨rfl, rfl⟩
    have hstart := c.target.start_agree v.now v.transport hagree
    have hcalled : v.called (c.withCodec k) = v.called c := congrArg Prod.fst hstart.symm
    have hprogress : v.progress (c.withCodec k) = v.progress c := congrArg Prod.snd hstart.symm
    have hworking' : (s.awaiting ds).worker = .working (v.batch :: rest) := hworking
    cases hp : v.progress c with
    | running exchange =>
      have hp' := hprogress.trans hp
      rw [serve_running c hworking hp, serve_running (c.withCodec k) hworking' hp', hcalled]
      have hnew : ∀ ds : List Delivery, (∀ d ∈ ds, d.id = id → ∀ p ∈ d.members, p.ticket ∈ tickets) →
          ∀ d ∈ ds ++ [⟨s.nextDelivery, v.batch, exchange⟩], d.id = id →
            ∀ p ∈ d.members, p.ticket ∈ tickets := by
        intro ds hds d hd hid
        rcases List.mem_append.mp hd with hd | hd
        · exact hds d hd hid
        · rw [List.mem_singleton.mp hd] at hid
          exact absurd hid hnumber
      refine ⟨⟨rfl, ?_, hnew _ own, hnew _ own'⟩, rfl⟩
      show (s.deliveries ++ [_]).filter _ = (ds ++ [_]).filter _
      rw [List.filter_append, List.filter_append, hothers]
      rfl
    | ended outcome =>
      have hp' := hprogress.trans hp
      by_cases hcrashed : outcome = .crashed
      · subst hcrashed
        rw [serve_crashed c hworking hp, serve_crashed (c.withCodec k) hworking' hp', hcalled]
        exact ⟨⟨rfl, hothers, own, own'⟩, rfl⟩
      · rw [serve_ended c hworking hcrashed hp, serve_ended (c.withCodec k) hworking' hcrashed hp',
          hcalled, ending_frame]
        exact ⟨⟨rfl, hothers, own, own'⟩, rfl⟩

theorem Apart.finish {c : Scheduler} {k : Codec} (h : Apart id tickets s t) {i : Nat} (hi : i ≠ id)
    (call : Nat) (outcome : Outcome Json)
    (alike : ∀ d ∈ s.deliveries, d.id ≠ id → c.target.codec.ReadAlike k d.exchange.calls) :
    Apart id tickets (c.finish i call outcome s).1 ((c.withCodec k).finish i call outcome t).1 ∧
      (c.finish i call outcome s).2 = ((c.withCodec k).finish i call outcome t).2 := by
  obtain ⟨hsame, hothers, own, own'⟩ := h
  generalize t.deliveries = ds at hsame hothers own'
  subst hsame
  have hfind : ((s.awaiting ds).deliveries.find? fun d => d.id = i)
      = s.deliveries.find? fun d => d.id = i := by
    rw [← Delivery.find?_others hi s.deliveries, hothers]
    exact (Delivery.find?_others hi ds).symm
  obtain ⟨hnone, hs⟩ | ⟨d, hfound, hs⟩ := finish_cases c i call outcome s
  · obtain ⟨_, ht⟩ | ⟨d, hfound, _⟩ := finish_cases (c.withCodec k) i call outcome (s.awaiting ds)
    · rw [hs, ht]
      exact ⟨⟨rfl, hothers, own, own'⟩, rfl⟩
    · rw [hfind, hnone] at hfound
      cases hfound
  · obtain ⟨hnone, _⟩ | ⟨d', hfound', ht⟩ :=
      finish_cases (c.withCodec k) i call outcome (s.awaiting ds)
    · rw [hfind, hfound] at hnone
      cases hnone
    · rw [hfind, hfound] at hfound'
      cases hfound'
      have hmem : d ∈ s.deliveries := List.mem_of_find?_eq_some hfound
      have hid : d.id = i := by simpa using List.find?_some hfound
      have hresume : d.exchange.resume (c.withCodec k).target.codec call outcome
          = d.exchange.resume c.target.codec call outcome :=
        (Exchange.resume_agree (alike d hmem (hid ▸ hi)) call outcome).symm
      rw [hs, ht, hresume]
      cases d.exchange.resume c.target.codec call outcome with
      | running exchange =>
        have hupdate : ∀ ds : List Delivery,
            (∀ d ∈ ds, d.id = id → ∀ p ∈ d.members, p.ticket ∈ tickets) →
            ∀ d ∈ ds.map (Delivery.update i exchange), d.id = id →
              ∀ p ∈ d.members, p.ticket ∈ tickets := by
          intro ds hds d hd hid
          obtain ⟨d₀, hd₀, rfl⟩ := List.mem_map.mp hd
          rw [Delivery.update_id] at hid
          rw [Delivery.update_members]
          exact hds d₀ hd₀ hid
        refine ⟨⟨rfl, ?_, hupdate _ own, hupdate _ own'⟩, rfl⟩
        show (s.deliveries.map _).filter _ = (ds.map _).filter _
        rw [Delivery.filter_update, Delivery.filter_update, hothers]
      | ended result =>
        have hfewer : ∀ ds : List Delivery,
            (∀ d ∈ ds, d.id = id → ∀ p ∈ d.members, p.ticket ∈ tickets) →
            ∀ d ∈ ds.filter fun d => d.id ≠ i, d.id = id → ∀ p ∈ d.members, p.ticket ∈ tickets :=
          fun ds hds d hd => hds d (List.mem_filter.mp hd).1
        refine ⟨⟨rfl, ?_, hfewer _ own, hfewer _ own'⟩, (c.ending_frame k s ds d.members result).symm⟩
        show (s.deliveries.filter _).filter _ = (ds.filter _).filter _
        rw [List.filter_comm, hothers, List.filter_comm]

/-- The same event keeps states apart in the one batch alone, and is the same to others. -/
theorem Apart.step {c : Scheduler} {k : Codec} (h : Apart id tickets s t) (e : Event)
    (other : ∀ v, Moment.serving? ⟨s, e⟩ = some v → s.nextDelivery ≠ id ∧
      c.target.codec.Agree k v.transport.round ((v.batch.map (·.item)).map (·.request)))
    (alike : ∀ d ∈ s.deliveries, d.id ≠ id → c.target.codec.ReadAlike k d.exchange.calls) :
    Apart id tickets (c.step s e).1 ((c.withCodec k).step t e).1 ∧
      outside tickets (c.step s e).2 = outside tickets ((c.withCodec k).step t e).2 := by
  by_cases hbatch : e.ofBatch
  · cases e with
    | serve now transport =>
      obtain ⟨hapart, heffects⟩ := h.serve now transport other
      exact ⟨hapart, congrArg (outside tickets) heffects⟩
    | finish i call outcome =>
      by_cases hi : i = id
      · subst hi
        obtain ⟨hs, hleft⟩ := (c.step_change s (.finish i call outcome)).own h.own
        obtain ⟨ht, hright⟩ := ((c.withCodec k).step_change t (.finish i call outcome)).own h.own'
        exact ⟨hs.symm.trans (h.trans ht), hleft.trans hright.symm⟩
      · obtain ⟨hapart, heffects⟩ := h.finish hi call outcome alike
        exact ⟨hapart, congrArg (outside tickets) heffects⟩
    | _ => cases hbatch
  · obtain ⟨hframe, hdeliveries⟩ := c.step_frame k s t.deliveries hbatch
    rw [← h.same] at hframe
    rw [hframe]
    refine ⟨⟨rfl, ?_, ?_, h.own'⟩, rfl⟩
    · rw [hdeliveries]
      exact h.others
    · rw [hdeliveries]
      exact h.own

end

end Scheduler

end Coalesce
