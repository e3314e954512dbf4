import Coalesce.Proofs.Gateway.Order
import Coalesce.Proofs.Scheduler.Apart

/-!
# Lanes that differ in one batch

* `Lane.Apart`            two lanes that differ in what one batch waits for;
* `Lane.Beside`           two runs with the same events, but for those of one batch: it is served at
                          another time, and its calls come back otherwise, in other moments;
* `Lane.Beside.apart`     then all else is the same: the batches that are formed, the calls that are
                          started, and the answers;
* `Lane.beside_of_filter` such runs, told by the events that they share.

The runs may even differ in their codecs, as long as these agree on the other batches: a merger that
goes wrong on one batch has done nothing to others.
-/

namespace Coalesce

namespace Lane

/-- what the codec is asked to write for a batch -/
def requests (batch : List Pending) : List Request := (batch.map (·.item)).map (·.request)

structure Apart (id : Nat) (tickets : List Nat) (l m : Lane) : Prop where
  solos : l.solos = m.solos
  scheduler : Scheduler.Apart id tickets l.scheduler m.scheduler

theorem Apart.symm {id : Nat} {tickets : List Nat} {l m : Lane} (h : Apart id tickets l m) :
    Apart id tickets m l := ⟨h.solos.symm, h.scheduler.symm⟩

theorem Moment.serving?_scheduled {l : Lane} {e : Event} {e' : Scheduler.Event}
    (h : e.scheduled? = some e') :
    Moment.serving? ⟨l, e⟩ = Scheduler.Moment.serving? ⟨l.scheduler, e'⟩ := by
  unfold Moment.serving? Moment.scheduled?
  dsimp only
  rw [h]
  rfl

/-- a call comes back for the batch with some number -/
def Event.ofDelivery (id : Nat) : Event → Bool
  | .scheduled (.finish delivery _ _) => delivery = id
  | _ => false

section
variable {c : Scheduler} {k : Codec} {id : Nat} {tickets : List Nat} {l m : Lane}

/-! ## one event -/

theorem Apart.left (c : Scheduler) (h : Apart id tickets l m) {e : Event} (own : e.ofDelivery id) :
    Apart id tickets (l.step (.batched c) e).1 m ∧
      outside tickets (l.step (.batched c) e).2 = [] := by
  cases e with
  | scheduled e =>
    cases e with
    | finish delivery call outcome =>
      have hid : delivery = id := of_decide_eq_true own
      subst hid
      obtain ⟨hapart, hnothing⟩ :=
        (c.step_change l.scheduler (.finish delivery call outcome)).own h.scheduler.own
      exact ⟨⟨h.solos, hapart.symm.trans h.scheduler⟩, hnothing⟩
    | _ => cases own
  | _ => cases own

theorem sendAlone_agree (now : Int) (transport : Transport) (p : Pending)
    (h : c.target.codec.Agree k transport.round (requests [p])) (l : Lane) :
    l.sendAlone (c.withCodec k).target now transport p = l.sendAlone c.target now transport p := by
  have hstart : (c.withCodec k).target.start now transport [p.item]
      = c.target.start now transport [p.item] := (c.target.start_agree now transport h).symm
  unfold sendAlone
  rw [hstart]

theorem resume_agree (ticket call : Nat) (outcome : Outcome Json) (l : Lane)
    (h : ∀ solo ∈ l.solos, c.target.codec.ReadAlike k solo.exchange.calls) :
    l.resume (c.withCodec k).target ticket call outcome
      = l.resume c.target ticket call outcome := by
  unfold resume
  cases hfound : l.solos.find? fun s => s.request.ticket = ticket with
  | none => rfl
  | some solo =>
    have hread := h solo (List.mem_of_find?_eq_some hfound)
    have hresume : solo.exchange.resume (c.withCodec k).target.codec call outcome
        = solo.exchange.resume c.target.codec call outcome :=
      (Exchange.resume_agree hread call outcome).symm
    dsimp only
    rw [hresume]

theorem Apart.step (h : Apart id tickets l m) (e : Event)
    (other : ∀ v, Moment.serving? ⟨l, e⟩ = some v → l.scheduler.nextDelivery ≠ id ∧
      c.target.codec.Agree k v.transport.round (requests v.batch))
    (alone : ∀ v, e.sending? = some v →
      c.target.codec.Agree k v.transport.round (requests v.batch))
    (alike : ∀ d ∈ l.scheduler.deliveries, d.id ≠ id → c.target.codec.ReadAlike k d.exchange.calls)
    (alike' : ∀ solo ∈ l.solos, c.target.codec.ReadAlike k solo.exchange.calls) :
    Apart id tickets (l.step (.batched c) e).1 (m.step (.batched (c.withCodec k)) e).1 ∧
      outside tickets (l.step (.batched c) e).2
        = outside tickets (m.step (.batched (c.withCodec k)) e).2 := by
  obtain ⟨ls, lsolos⟩ := l
  obtain ⟨ms, msolos⟩ := m
  obtain ⟨hsolos, hscheduler⟩ := h
  dsimp only at hsolos hscheduler alike alike' other
  subst hsolos
  -- an event of the scheduler
  have scheduled : ∀ e', e.scheduled? = some e' →
      Scheduler.Apart id tickets (c.step ls e').1 ((c.withCodec k).step ms e').1 ∧
        outside tickets (c.step ls e').2 = outside tickets ((c.withCodec k).step ms e').2 :=
    fun e' he => hscheduler.step e'
      (fun v hv => other v ((Moment.serving?_scheduled he).trans hv)) alike
  cases e with
  | execute now transport p =>
    by_cases hp : p.item.isSubscription = true
    · have hsend := alone ⟨now, transport, [p]⟩ (if_pos hp)
      have hl : step (.batched c) ⟨ls, lsolos⟩ (.execute now transport p)
          = sendAlone c.target now transport p ⟨ls, lsolos⟩ := if_pos hp
      have hm : step (.batched (c.withCodec k)) ⟨ms, lsolos⟩ (.execute now transport p)
          = sendAlone c.target now transport p ⟨ms, lsolos⟩ :=
        (if_pos hp).trans (sendAlone_agree now transport p hsend _)
      rw [hl, hm]
      unfold sendAlone
      dsimp only
      split
      · exact ⟨⟨rfl, hscheduler⟩, rfl⟩
      · exact ⟨⟨rfl, hscheduler⟩, rfl⟩
    · obtain ⟨hapart, heffects⟩ := scheduled (.submit p) (if_neg hp)
      have hstep : ∀ (c : Scheduler) (s : Scheduler.State),
          step (.batched c) ⟨s, lsolos⟩ (.execute now transport p)
            = (⟨(c.step s (.submit p)).1, lsolos⟩, (c.step s (.submit p)).2) :=
        fun c s => if_neg hp
      rw [hstep, hstep]
      exact ⟨⟨rfl, hapart⟩, heffects⟩
  | resume ticket call outcome =>
    have hm : step (.batched (c.withCodec k)) ⟨ms, lsolos⟩ (.resume ticket call outcome)
        = resume c.target ticket call outcome ⟨ms, lsolos⟩ :=
      resume_agree ticket call outcome ⟨ms, lsolos⟩ alike'
    have hl : step (.batched c) ⟨ls, lsolos⟩ (.resume ticket call outcome)
        = resume c.target ticket call outcome ⟨ls, lsolos⟩ := rfl
    rw [hl, hm]
    unfold resume
    dsimp only
    split
    · exact ⟨⟨rfl, hscheduler⟩, rfl⟩
    · split
      · exact ⟨⟨rfl, hscheduler⟩, rfl⟩
      · exact ⟨⟨rfl, hscheduler⟩, rfl⟩
  | leave ticket =>
    obtain ⟨hapart, heffects⟩ := scheduled (.leave ticket) rfl
    exact ⟨⟨rfl, hapart⟩, heffects⟩
  | scheduled e' =>
    obtain ⟨hapart, heffects⟩ := scheduled e' rfl
    exact ⟨⟨rfl, hapart⟩, heffects⟩

theorem Apart.formed (h : Apart id tickets l m) (e : Event) :
    Moment.formed c ⟨l, e⟩ = Moment.formed (c.withCodec k) ⟨m, e⟩ := by
  have hscheduled : ∀ e', Scheduler.Moment.formed c ⟨l.scheduler, e'⟩
      = Scheduler.Moment.formed (c.withCodec k) ⟨m.scheduler, e'⟩ := by
    intro e'
    rw [h.scheduler.same]
    exact (c.formed_frame k l.scheduler m.scheduler.deliveries e').symm
  unfold Moment.formed Moment.scheduled?
  dsimp only
  cases e.scheduled? with
  | none => rfl
  | some e' =>
    show ([_] : List Scheduler.Moment).flatMap _ ++ _ = ([_] : List Scheduler.Moment).flatMap _ ++ _
    rw [List.flatMap_singleton, List.flatMap_singleton, hscheduled]

/-- The batch itself is served in both lanes, and nothing comes of it for others. -/
theorem Apart.served (h : Apart id tickets l m) {v w : Scheduler.Serving} (same : v.batch = w.batch)
    (members : ∀ p ∈ v.batch, p.ticket ∈ tickets) {rest : List (List Pending)}
    (working : l.scheduler.worker = .working (v.batch :: rest))
    (number : l.scheduler.nextDelivery = id) (alive : v.progress c ≠ .ended .crashed)
    (alive' : w.progress (c.withCodec k) ≠ .ended .crashed) :
    Apart id tickets (l.step (.batched c) (.scheduled (.serve v.now v.transport))).1
        (m.step (.batched (c.withCodec k)) (.scheduled (.serve w.now w.transport))).1 ∧
      outside tickets (l.step (.batched c) (.scheduled (.serve v.now v.transport))).2 = [] ∧
      outside tickets
        (m.step (.batched (c.withCodec k)) (.scheduled (.serve w.now w.transport))).2 = [] := by
  have hscheduler := h.scheduler
  have working' : m.scheduler.worker = .working (w.batch :: rest) := by
    rw [hscheduler.same, ← same]
    exact working
  have number' : m.scheduler.nextDelivery = id := by
    rw [hscheduler.same]
    exact number
  have members' : ∀ p ∈ w.batch, p.ticket ∈ tickets := by
    rw [← same]
    exact members
  obtain ⟨hleft, hnothing⟩ := (c.step_change _ (.serve v.now v.transport)).serves working number
    alive members hscheduler.own
  obtain ⟨hright, hnothing'⟩ := ((c.withCodec k).step_change _ (.serve w.now w.transport)).serves
    working' number' alive' members' hscheduler.own'
  exact ⟨⟨h.solos, hleft.symm.trans ((hscheduler.next rest).trans hright)⟩, hnothing, hnothing'⟩

theorem formed_serve (c : Scheduler) (l : Lane) (now : Int) (transport : Transport) :
    Moment.formed c ⟨l, .scheduled (.serve now transport)⟩ = [] := rfl

/-! ## runs -/

theorem servings_scheduled_snoc (past : List Moment) (m : Moment) :
    Scheduler.servings (scheduled (past ++ [m]))
      = Scheduler.servings (scheduled past) ++ m.serving?.toList := by
  rw [servings_scheduled, servings_scheduled, List.filterMap_append]
  cases h : m.serving? with
  | none => simp [h]
  | some v => simp [h]

/-- batches are numbered in the order in which they are served -/
theorem number_eq (c : Scheduler) (es : List Event) :
    (run (.batched c) {} es).1.scheduler.nextDelivery
      = (Scheduler.servings (scheduled (moments c {} es))).length := by
  obtain ⟨own, hown, _, _⟩ := (history_run c es).scheduler
  exact hown.orderly.next

theorem number_snoc (c : Scheduler) (es : List Event) (e : Event) :
    (run (.batched c) {} (es ++ [e])).1.scheduler.nextDelivery
      = (run (.batched c) {} es).1.scheduler.nextDelivery
        + (Moment.serving? ⟨(run (.batched c) {} es).1, e⟩).toList.length := by
  rw [number_eq, number_eq, moments_snoc, servings_scheduled_snoc, List.length_append]

/-- The codecs agree on all batches that were served but for the one with some number, and on all
requests that were sent alone. -/
structure Agreed (c : Scheduler) (k : Codec) (id : Nat) (past : List Moment) : Prop where
  batches : ∀ (i : Nat) (v : Scheduler.Serving),
    (Scheduler.servings (scheduled past))[i]? = some v → i ≠ id →
      c.target.codec.Agree k v.transport.round (requests v.batch)
  alone : ∀ v ∈ sendings past, c.target.codec.Agree k v.transport.round (requests v.batch)

theorem Agreed.before {past : List Moment} {m : Moment} (h : Agreed c k id (past ++ [m])) :
    Agreed c k id past where
  batches i v hv hi := by
    refine h.batches i v ?_ hi
    rw [scheduled_append, Scheduler.servings_append,
      List.getElem?_append_left (List.getElem?_eq_some_iff.mp hv).1]
    exact hv
  alone v hv := by
    refine h.alone v ?_
    rw [sendings_append]
    exact List.mem_append_left _ hv

/-- What is waited for was written by a codec, and is read alike by one that agrees. -/
theorem History.read_alike {past : List Moment} {effects : List Effect}
    (h : History c past l effects) (hagreed : Agreed c k id past) :
    (∀ d ∈ l.scheduler.deliveries, d.id ≠ id → c.target.codec.ReadAlike k d.exchange.calls) ∧
      ∀ solo ∈ l.solos, c.target.codec.ReadAlike k solo.exchange.calls := by
  obtain ⟨own, hown, _, _⟩ := h.scheduler
  refine ⟨fun d hd hid => ?_, fun solo hsolo => ?_⟩
  · obtain ⟨v, ship, hv, hbatch, hships, hcalls, _⟩ := (hown.orderly.kept d hd).served
    have hagree := hagreed.batches d.id v hv hid
    rw [hbatch] at hagree
    rw [hcalls]
    exact hagree.decode ship.calls hships.encode
  · obtain ⟨v, ship, hkept⟩ := h.alone solo hsolo
    have hagree := hagreed.alone v hkept.sent
    rw [hkept.batch] at hagree
    rw [hkept.calls]
    exact hagree.decode ship.calls hkept.ships.encode

/-- Runs with the same events, but for those of the batch with some number, which does not crash
when it is served. -/
inductive Beside (c : Scheduler) (k : Codec) (id : Nat) (tickets : List Nat) :
    List Event → List Event → Prop where
  | start : Beside c k id tickets [] []
  | both {es es' : List Event} (h : Beside c k id tickets es es') (e : Event)
      (other : (Moment.serving? ⟨(run (.batched c) {} es).1, e⟩).isSome →
        (run (.batched c) {} es).1.scheduler.nextDelivery ≠ id) :
      Beside c k id tickets (es ++ [e]) (es' ++ [e])
  | served {es es' : List Event} (h : Beside c k id tickets es es') (v w : Scheduler.Serving)
      (same : v.batch = w.batch) (members : ∀ p ∈ v.batch, p.ticket ∈ tickets)
      (rest : List (List Pending))
      (working : (run (.batched c) {} es).1.scheduler.worker = .working (v.batch :: rest))
      (number : (run (.batched c) {} es).1.scheduler.nextDelivery = id)
      (alive : v.progress c ≠ .ended .crashed)
      (alive' : w.progress (c.withCodec k) ≠ .ended .crashed) :
      Beside c k id tickets (es ++ [.scheduled (.serve v.now v.transport)])
        (es' ++ [.scheduled (.serve w.now w.transport)])
  | first {es es' : List Event} (h : Beside c k id tickets es es') (e : Event)
      (own : e.ofDelivery id) : Beside c k id tickets (es ++ [e]) es'
  | second {es es' : List Event} (h : Beside c k id tickets es es') (e : Event)
      (own : e.ofDelivery id) : Beside c k id tickets es (es' ++ [e])

theorem formed_snoc (c : Scheduler) (past : List Moment) (m : Moment) :
    formed c (past ++ [m]) = formed c past ++ m.formed c := by
  unfold formed
  rw [List.flatMap_append, List.flatMap_singleton]

theorem formed_own {e : Event} (own : e.ofDelivery id) : Moment.formed c ⟨l, e⟩ = [] := by
  cases e with
  | scheduled e =>
    cases e with
    | finish delivery call outcome => rfl
    | _ => cases own
  | _ => cases own

theorem Beside.apart {es es' : List Event} (h : Beside c k id tickets es es')
    (hagreed : Agreed c k id (moments c {} es)) :
    Apart id tickets (run (.batched c) {} es).1 (run (.batched (c.withCodec k)) {} es').1 ∧
      outside tickets (run (.batched c) {} es).2
        = outside tickets (run (.batched (c.withCodec k)) {} es').2 ∧
      formed c (moments c {} es) = formed (c.withCodec k) (moments (c.withCodec k) {} es') := by
  induction h with
  | start =>
    refine ⟨⟨rfl, ⟨rfl, rfl, ?_, ?_⟩⟩, rfl, rfl⟩
    · exact fun d hd => absurd hd List.not_mem_nil
    · exact fun d hd => absurd hd List.not_mem_nil
  | @both es es' h e other ih =>
    rw [moments_snoc] at hagreed
    obtain ⟨hapart, heffects, hformed⟩ := ih hagreed.before
    obtain ⟨halike, halike'⟩ := (history_run c es).read_alike hagreed.before
    have hother : ∀ v, Moment.serving? ⟨(run (.batched c) {} es).1, e⟩ = some v →
        (run (.batched c) {} es).1.scheduler.nextDelivery ≠ id ∧
          c.target.codec.Agree k v.transport.round (requests v.batch) := by
      intro v hv
      have hnumber := other (Option.isSome_of_eq_some hv)
      refine ⟨hnumber, hagreed.batches _ v ?_ hnumber⟩
      rw [servings_scheduled_snoc, hv, number_eq, List.getElem?_append_right (Nat.le_refl _),
        Nat.sub_self]
      rfl
    have halone : ∀ v, e.sending? = some v →
        c.target.codec.Agree k v.transport.round (requests v.batch) := by
      intro v hv
      refine hagreed.alone v ?_
      rw [sendings_snoc]
      show v ∈ _ ++ e.sending?.toList
      rw [hv]
      exact List.mem_append_right _ (List.mem_singleton_self v)
    obtain ⟨hstep, hmore⟩ := hapart.step e hother halone halike halike'
    rw [run_snoc, run_snoc, moments_snoc, moments_snoc, formed_snoc, formed_snoc, outside_append,
      outside_append, heffects, hmore, hformed, hapart.formed e]
    exact ⟨hstep, rfl, rfl⟩
  | @served es es' h v w same members rest working number alive alive' ih =>
    rw [moments_snoc] at hagreed
    obtain ⟨hapart, heffects, hformed⟩ := ih hagreed.before
    obtain ⟨hserved, hnothing, hnothing'⟩ :=
      hapart.served same members working number alive alive'
    rw [run_snoc, run_snoc, moments_snoc, moments_snoc, formed_snoc, formed_snoc, outside_append,
      outside_append, heffects, hformed, hnothing, hnothing', formed_serve, formed_serve]
    exact ⟨hserved, rfl, rfl⟩
  | @first es es' h e own ih =>
    rw [moments_snoc] at hagreed
    obtain ⟨hapart, heffects, hformed⟩ := ih hagreed.before
    obtain ⟨hleft, hnothing⟩ := hapart.left c own
    rw [run_snoc, moments_snoc, formed_snoc, outside_append, formed_own own, hnothing,
      List.append_nil, List.append_nil]
    exact ⟨hleft, heffects, hformed⟩
  | @second es es' h e own ih =>
    obtain ⟨hapart, heffects, hformed⟩ := ih hagreed
    obtain ⟨hright, hnothing⟩ := hapart.symm.left (c.withCodec k) own
    rw [run_snoc, moments_snoc, formed_snoc, outside_append, formed_own own, hnothing,
      List.append_nil, List.append_nil]
    exact ⟨hright.symm, heffects, hformed⟩

/-! ## runs that are given by their events -/

theorem Beside.refl {es : List Event}
    (h : (run (.batched c) {} es).1.scheduler.nextDelivery ≤ id) : Beside c k id tickets es es := by
  induction es using List.reverseRecOn with
  | nil => exact .start
  | append_singleton es e ih =>
    rw [number_snoc] at h
    refine .both (ih (by omega)) e fun hserves => ?_
    obtain ⟨v, hv⟩ := Option.isSome_iff_exists.mp hserves
    rw [hv, Option.toList_some, List.length_singleton] at h
    omega

theorem others_own {e : Event} (own : e.ofDelivery id) (es : List Event) :
    ((es ++ [e]).filter fun e => ¬ e.ofDelivery id) = es.filter fun e => ¬ e.ofDelivery id := by
  rw [List.filter_append, List.filter_cons, if_neg (by simpa using own)]
  exact List.append_nil _

theorem others_other {e : Event} (other : ¬ e.ofDelivery id) (es : List Event) :
    ((es ++ [e]).filter fun e => ¬ e.ofDelivery id)
      = (es.filter fun e => ¬ e.ofDelivery id) ++ [e] := by
  rw [List.filter_append, List.filter_cons, if_pos (by simpa using other)]
  rfl

/-- Once the batch is served, what its calls come to may be left out of either run. -/
theorem Beside.append {es es' : List Event} (h : Beside c k id tickets es es')
    (served : id < (run (.batched c) {} es).1.scheduler.nextDelivery) {more more' : List Event}
    (others : (more.filter fun e => ¬ e.ofDelivery id) = more'.filter fun e => ¬ e.ofDelivery id) :
    Beside c k id tickets (es ++ more) (es' ++ more') := by
  have hgrows : ∀ more, id < (run (.batched c) {} (es ++ more)).1.scheduler.nextDelivery := by
    intro more
    induction more using List.reverseRecOn with
    | nil =>
      rw [List.append_nil]
      exact served
    | append_singleton more e ih =>
      rw [← List.append_assoc, number_snoc]
      omega
  induction more using List.reverseRecOn generalizing more' with
  | nil =>
    induction more' using List.reverseRecOn with
    | nil =>
      rw [List.append_nil, List.append_nil]
      exact h
    | append_singleton more' e ih =>
      have hown : e.ofDelivery id := by
        have hnone := List.filter_eq_nil_iff.mp others.symm
        simpa using hnone e (List.mem_append_right _ (List.mem_singleton_self e))
      rw [others_own hown] at others
      rw [← List.append_assoc]
      exact .second (ih others) e hown
  | append_singleton more e ih =>
    rw [← List.append_assoc]
    by_cases hown : e.ofDelivery id
    · rw [others_own hown] at others
      exact .first (ih others) e hown
    · rw [others_other hown] at others
      induction more' using List.reverseRecOn with
      | nil => exact absurd others (List.append_ne_nil_of_right_ne_nil _ (List.cons_ne_nil _ _))
      | append_singleton more' e' ih' =>
        rw [← List.append_assoc]
        by_cases hown' : e'.ofDelivery id
        · rw [others_own hown'] at others
          exact .second (ih' others) e' hown'
        · rw [others_other hown'] at others
          obtain ⟨hrest, he⟩ := List.append_inj' others rfl
          cases he
          have hlt := hgrows more
          exact .both (ih hrest) e fun _ => by omega

/-- Two runs that serve the same batch after the same events, and share all later events but those
of this batch. -/
theorem beside_of_filter {before after after' : List Event} {v w : Scheduler.Serving}
    {rest : List (List Pending)}
    (working : (run (.batched c) {} before).1.scheduler.worker = .working (v.batch :: rest))
    (number : (run (.batched c) {} before).1.scheduler.nextDelivery = id) (same : w.batch = v.batch)
    (alive : v.progress c ≠ .ended .crashed) (alive' : w.progress (c.withCodec k) ≠ .ended .crashed)
    (others : (after.filter fun e => ¬ e.ofDelivery id)
      = after'.filter fun e => ¬ e.ofDelivery id) :
    Beside c k id (v.batch.map (·.ticket)) (before ++ .scheduled (.serve v.now v.transport) :: after)
      (before ++ .scheduled (.serve w.now w.transport) :: after') := by
  have hmembers : ∀ p ∈ v.batch, p.ticket ∈ v.batch.map (·.ticket) := fun p hp =>
    List.mem_map.mpr ⟨p, hp, rfl⟩
  have hserved : Beside c k id (v.batch.map (·.ticket))
      (before ++ [.scheduled (.serve v.now v.transport)])
      (before ++ [.scheduled (.serve w.now w.transport)]) :=
    .served (.refl (Nat.le_of_eq number)) v w same.symm hmembers rest working number alive alive'
  have hserving : Moment.serving? ⟨(run (.batched c) {} before).1,
      .scheduled (.serve v.now v.transport)⟩ = some v :=
    Scheduler.serving?_serve v.now v.transport working
  have hnext : id < (run (.batched c) {}
      (before ++ [.scheduled (.serve v.now v.transport)])).1.scheduler.nextDelivery := by
    rw [number_snoc, number, hserving]
    exact Nat.lt_succ_self id
  have happend := hserved.append hnext others
  rwa [List.append_assoc, List.append_assoc] at happend

end

end Lane

end Coalesce
