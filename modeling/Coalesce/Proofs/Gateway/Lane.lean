import Coalesce.Gateway.Lane
import Coalesce.Proofs.Scheduler.Results

/-!
# Histories of a lane

* `Lane.run`                 the lane after some events, and all effects in order;
* `Lane.Moment`, `Lane.History`
                             what happened at a lane whose target batches, and where that led;
* `Lane.scheduled`, `Lane.sendings`
                             what happened to its scheduler, and the requests sent alone, each one
                             as a batch of its own;
* `Lane.Change`              all that an event may do: a change of the scheduler, or something that
                             concerns a request sent alone;
* `Lane.History.by_sides`    induction over a history and that of its scheduler, step by step;
* `Lane.History.scheduler`   what happened to the scheduler is a history of it;
* `Lane.History.alone`       a request sent alone waits for what was started for it.
-/

namespace Coalesce

namespace Lane

def run (r : Route) (l : Lane) : List Event → Lane × List Effect
  | [] => (l, [])
  | e :: rest =>
    let (l, effects) := l.step r e
    let (l, more) := run r l rest
    (l, effects ++ more)

theorem run_snoc (r : Route) (l : Lane) (es : List Event) (e : Event) :
    run r l (es ++ [e]) = (((run r l es).1.step r e).1,
      (run r l es).2 ++ ((run r l es).1.step r e).2) := by
  induction es generalizing l with
  | nil =>
    show ((l.step r e).1, (l.step r e).2 ++ []) = _
    rw [List.append_nil]
    rfl
  | cons d rest ih =>
    show ((run r (l.step r d).1 (rest ++ [e])).1,
      (l.step r d).2 ++ (run r (l.step r d).1 (rest ++ [e])).2) = _
    rw [ih]
    show (_, (l.step r d).2 ++ ((run r (l.step r d).1 rest).2 ++ _)) = _
    rw [← List.append_assoc]
    rfl

/-! ## moments -/

structure Moment where
  lane : Lane
  event : Event

/-- What happened since the start, where that led, and its effects. -/
inductive History (c : Scheduler) : List Moment → Lane → List Effect → Prop where
  | start : History c [] {} []
  | next {past : List Moment} {l : Lane} {effects : List Effect} (h : History c past l effects)
      (e : Event) :
      History c (past ++ [⟨l, e⟩]) (l.step (.batched c) e).1 (effects ++ (l.step (.batched c) e).2)

/-- the moments of some events -/
def moments (c : Scheduler) (l : Lane) : List Event → List Moment
  | [] => []
  | e :: rest => ⟨l, e⟩ :: moments c (l.step (.batched c) e).1 rest

theorem moments_append (c : Scheduler) (l : Lane) (first second : List Event) :
    moments c l (first ++ second)
      = moments c l first ++ moments c (run (.batched c) l first).1 second := by
  induction first generalizing l with
  | nil => rfl
  | cons e rest ih => exact congrArg (⟨l, e⟩ :: ·) (ih (l.step (.batched c) e).1)

theorem moments_snoc (c : Scheduler) (l : Lane) (es : List Event) (e : Event) :
    moments c l (es ++ [e]) = moments c l es ++ [⟨(run (.batched c) l es).1, e⟩] :=
  moments_append c l es [e]

/-- Every run is a history. -/
theorem history_run (c : Scheduler) (es : List Event) :
    History c (moments c {} es) (run (.batched c) {} es).1 (run (.batched c) {} es).2 := by
  induction es using List.reverseRecOn with
  | nil => exact .start
  | append_singleton es e ih =>
    rw [moments_snoc, run_snoc]
    exact .next ih e

/-! ## what is read off moments -/

/-- what an event is to the scheduler -/
def Event.scheduled? : Event → Option Scheduler.Event
  | .execute _ _ p => if p.item.isSubscription then none else some (.submit p)
  | .resume _ _ _ => none
  | .leave ticket => some (.leave ticket)
  | .scheduled e => some e

/-- a request that is sent alone -/
def Event.sending? : Event → Option Scheduler.Serving
  | .execute now transport p => if p.item.isSubscription then some ⟨now, transport, [p]⟩ else none
  | _ => none

/-- the requests that come in -/
def Event.arrivals : Event → List Pending
  | .execute _ _ p => [p]
  | .scheduled e => e.arrivals
  | _ => []

def Moment.scheduled? (m : Moment) : Option Scheduler.Moment :=
  m.event.scheduled?.map fun e => ⟨m.lane.scheduler, e⟩

def scheduled (past : List Moment) : List Scheduler.Moment := past.filterMap Moment.scheduled?

def sendings (past : List Moment) : List Scheduler.Serving :=
  past.filterMap fun m => m.event.sending?

def arrivals (past : List Moment) : List Pending := past.flatMap fun m => m.event.arrivals

theorem scheduled_append (past more : List Moment) :
    scheduled (past ++ more) = scheduled past ++ scheduled more := List.filterMap_append

theorem sendings_append (past more : List Moment) :
    sendings (past ++ more) = sendings past ++ sendings more := List.filterMap_append

theorem arrivals_append (past more : List Moment) :
    arrivals (past ++ more) = arrivals past ++ arrivals more := List.flatMap_append

/-- the batches that a moment brings, of one request if it is sent alone -/
def Moment.formed (c : Scheduler) (m : Moment) : List (List Pending) :=
  m.scheduled?.toList.flatMap (Scheduler.Moment.formed c) ++
    m.event.sending?.toList.flatMap fun v => [v.batch]

/-- all batches, in order -/
def formed (c : Scheduler) (past : List Moment) : List (List Pending) :=
  past.flatMap fun m => m.formed c

/-- a moment is the scheduler's, or that of a request sent alone, or neither -/
theorem flatMap_perm {α β γ δ : Type} (l : List α) (f : α → Option β) (g : α → Option γ)
    (x : β → List δ) (y : γ → List δ) :
    (l.flatMap fun a => (f a).toList.flatMap x ++ (g a).toList.flatMap y).Perm
      ((l.filterMap f).flatMap x ++ (l.filterMap g).flatMap y) := by
  induction l with
  | nil => exact List.Perm.refl _
  | cons a rest ih =>
    have hf : ((a :: rest).filterMap f).flatMap x
        = (f a).toList.flatMap x ++ (rest.filterMap f).flatMap x := by
      rw [List.filterMap_cons]
      cases f a <;> simp
    have hg : ((a :: rest).filterMap g).flatMap y
        = (g a).toList.flatMap y ++ (rest.filterMap g).flatMap y := by
      rw [List.filterMap_cons]
      cases g a <;> simp
    refine Multiset.coe_eq_coe.mp ?_
    have hrest := Multiset.coe_eq_coe.mpr ih
    rw [hf, hg, List.flatMap_cons]
    simp only [← Multiset.coe_add] at hrest ⊢
    rw [hrest]
    abel

theorem arrivals_perm (past : List Moment) :
    (arrivals past).Perm (Scheduler.arrivals (scheduled past) ++
      (sendings past).flatMap (·.batch)) := by
  have heach : ∀ m : Moment, m.event.arrivals
      = (m.scheduled?.toList.flatMap fun m => m.event.arrivals) ++
        m.event.sending?.toList.flatMap (·.batch) := by
    intro m
    unfold Moment.scheduled?
    cases m.event with
    | execute now transport p =>
      by_cases h : p.item.isSubscription = true
      · simp [Event.arrivals, Event.scheduled?, Event.sending?, h]
      · simp [Event.arrivals, Event.scheduled?, Event.sending?, h, Scheduler.Event.arrivals]
    | resume ticket call outcome => rfl
    | leave ticket => rfl
    | scheduled e => simp [Event.arrivals, Event.scheduled?, Event.sending?]
  unfold arrivals
  rw [List.flatMap_congr fun m _ => heach m]
  exact flatMap_perm past _ _ _ _

theorem formed_perm (c : Scheduler) (past : List Moment) :
    (formed c past).Perm (c.formed (scheduled past) ++ (sendings past).map (·.batch)) := by
  have h := flatMap_perm past Moment.scheduled? (fun m => m.event.sending?)
    (Scheduler.Moment.formed c) fun v => [v.batch]
  rwa [← List.map_eq_flatMap] at h

theorem scheduled_snoc (past : List Moment) (m : Moment) :
    scheduled (past ++ [m]) = scheduled past ++ m.scheduled?.toList := by
  rw [scheduled_append]
  unfold scheduled
  cases h : m.scheduled? with
  | none => simp [h]
  | some v => simp [h]

/-! ## what a step changes -/

inductive Change (c : Scheduler) (l : Lane) : Event → Lane → List Effect → Prop where
  /-- the scheduler takes it, and a caller that leaves takes its requests along -/
  | scheduled (e : Event) (e' : Scheduler.Event) (same : e.scheduled? = some e')
      (alone : e.sending? = none) (solos : List Solo) (fewer : solos.Sublist l.solos) :
      Change c l e ⟨(c.step l.scheduler e').1, solos⟩ (c.step l.scheduler e').2
  /-- the calls for a request sent alone are started, and some are waited for -/
  | started (now : Int) (transport : Transport) (p : Pending)
      (subscription : p.item.isSubscription = true) (exchange : Exchange)
      (running : Scheduler.Serving.progress c ⟨now, transport, [p]⟩ = .running exchange) :
      Change c l (.execute now transport p) { l with solos := l.solos ++ [⟨p, exchange⟩] }
        ((Scheduler.Serving.called c ⟨now, transport, [p]⟩).map fun call => Effect.called call [p])
  /-- a request sent alone ends at once -/
  | ended (now : Int) (transport : Transport) (p : Pending)
      (subscription : p.item.isSubscription = true) (outcome : Outcome (List Json))
      (ends : Scheduler.Serving.progress c ⟨now, transport, [p]⟩ = .ended outcome) :
      Change c l (.execute now transport p) l
        (((Scheduler.Serving.called c ⟨now, transport, [p]⟩).map fun call => Effect.called call [p])
          ++ [conclude p.ticket outcome])
  /-- nobody waits for the call that comes back -/
  | idle (ticket call : Nat) (outcome : Outcome Json)
      (nobody : ∀ solo ∈ l.solos, solo.request.ticket ≠ ticket) :
      Change c l (.resume ticket call outcome) l []
  /-- a call comes back, and more is waited for -/
  | resumed (call : Nat) (outcome : Outcome Json) (solo : Solo) (one : solo ∈ l.solos)
      (others : List Solo) (fewer : others.Sublist l.solos)
      (apart : ∀ other ∈ others, other.request.ticket ≠ solo.request.ticket) (exchange : Exchange)
      (running : solo.exchange.resume c.target.codec call outcome = .running exchange) :
      Change c l (.resume solo.request.ticket call outcome)
        { l with solos := others ++ [{ solo with exchange }] } []
  /-- a call comes back, and the request sent alone ends -/
  | finished (call : Nat) (outcome : Outcome Json) (solo : Solo) (one : solo ∈ l.solos)
      (others : List Solo) (fewer : others.Sublist l.solos)
      (apart : ∀ other ∈ others, other.request.ticket ≠ solo.request.ticket)
      (result : Outcome (List Json))
      (ends : solo.exchange.resume c.target.codec call outcome = .ended result) :
      Change c l (.resume solo.request.ticket call outcome) { l with solos := others }
        [conclude solo.request.ticket result]

theorem sendAlone_change (c : Scheduler) (now : Int) (transport : Transport) (p : Pending)
    (subscription : p.item.isSubscription = true) (l : Lane) :
    Change c l (.execute now transport p) (l.sendAlone c.target now transport p).1
      (l.sendAlone c.target now transport p).2 := by
  unfold sendAlone
  dsimp only
  split
  · rename_i exchange hrunning
    exact .started now transport p subscription exchange hrunning
  · rename_i outcome hended
    exact .ended now transport p subscription outcome hended

theorem resume_change (c : Scheduler) (ticket call : Nat) (outcome : Outcome Json) (l : Lane) :
    Change c l (.resume ticket call outcome) (l.resume c.target ticket call outcome).1
      (l.resume c.target ticket call outcome).2 := by
  unfold resume
  split
  · rename_i hnone
    refine .idle ticket call outcome fun solo hsolo heq => ?_
    exact List.find?_eq_none.mp hnone solo hsolo (decide_eq_true heq)
  · rename_i solo hfound
    have hmem := List.mem_of_find?_eq_some hfound
    have hticket : solo.request.ticket = ticket := by simpa using List.find?_some hfound
    rw [← hticket]
    have hapart : ∀ other ∈ l.solos.filter fun s => s.request.ticket ≠ solo.request.ticket,
        other.request.ticket ≠ solo.request.ticket := fun other hother =>
      of_decide_eq_true (List.mem_filter.mp hother).2
    dsimp only
    split
    · rename_i exchange hrunning
      exact .resumed call outcome solo hmem _ List.filter_sublist hapart exchange hrunning
    · rename_i result hended
      exact .finished call outcome solo hmem _ List.filter_sublist hapart result hended

/-- A step is a change. -/
theorem step_change (c : Scheduler) (l : Lane) (e : Event) :
    Change c l e (l.step (.batched c) e).1 (l.step (.batched c) e).2 := by
  cases e with
  | execute now transport p =>
    unfold step
    dsimp only
    split
    · rename_i subscription
      exact sendAlone_change c now transport p subscription l
    · rename_i query
      exact .scheduled (.execute now transport p) (.submit p) (if_neg query) (if_neg query) l.solos
        (List.Sublist.refl _)
  | resume ticket call outcome => exact resume_change c ticket call outcome l
  | leave ticket => exact .scheduled _ (.leave ticket) rfl rfl _ List.filter_sublist
  | scheduled e => exact .scheduled _ e rfl rfl l.solos (List.Sublist.refl _)

/-- What every change keeps holds along every history. -/
theorem History.by_changes {c : Scheduler}
    {motive : ∀ (past : List Moment) (l : Lane) (effects : List Effect),
      History c past l effects → Prop}
    (start : motive [] {} [] .start)
    (next : ∀ (past : List Moment) (l : Lane) (effects : List Effect) (e : Event) (l' : Lane)
      (more : List Effect) (h : History c past l effects)
      (h' : History c (past ++ [⟨l, e⟩]) l' (effects ++ more)),
      Change c l e l' more → motive past l effects h →
      motive (past ++ [⟨l, e⟩]) l' (effects ++ more) h')
    {past : List Moment} {l : Lane} {effects : List Effect} (h : History c past l effects) :
    motive past l effects h := by
  induction h with
  | start => exact start
  | next h e ih => exact next _ _ _ e _ _ h (.next h e) (step_change c _ e) ih

/-- A change is one of the scheduler, or leaves the scheduler alone. -/
theorem Change.sides {c : Scheduler} {l l' : Lane} {e : Event} {more : List Effect}
    (h : Change c l e l' more) :
    (∃ e', e.scheduled? = some e' ∧ e.sending? = none ∧ l'.scheduler = (c.step l.scheduler e').1 ∧
      more = (c.step l.scheduler e').2) ∨ e.scheduled? = none ∧ l'.scheduler = l.scheduler := by
  cases h with
  | scheduled _ e' same alone => exact Or.inl ⟨e', same, alone, rfl, rfl⟩
  | started _ _ _ subscription => exact Or.inr ⟨if_pos subscription, rfl⟩
  | ended _ _ _ subscription => exact Or.inr ⟨if_pos subscription, rfl⟩
  | idle => exact Or.inr ⟨rfl, rfl⟩
  | resumed => exact Or.inr ⟨rfl, rfl⟩
  | finished => exact Or.inr ⟨rfl, rfl⟩

/-- What happened to the scheduler is a history of it, and what is kept by its steps and by all other
changes holds along both. -/
theorem History.by_sides {c : Scheduler}
    {motive : List Moment → List Effect → List Effect → Prop} (start : motive [] [] [])
    (scheduled : ∀ (past : List Moment) (l : Lane) (effects own more : List Effect) (e : Event),
      History c past l effects → e.sending? = none → motive past effects own →
      motive (past ++ [⟨l, e⟩]) (effects ++ more) (own ++ more))
    (alone : ∀ (past : List Moment) (l l' : Lane) (effects own more : List Effect) (e : Event),
      History c past l effects → Change c l e l' more → e.scheduled? = none →
      motive past effects own → motive (past ++ [⟨l, e⟩]) (effects ++ more) own)
    {past : List Moment} {l : Lane} {effects : List Effect} (h : History c past l effects) :
    ∃ own, c.History (Lane.scheduled past) l.scheduler own ∧ motive past effects own := by
  induction h using History.by_changes with
  | start => exact ⟨[], .start, start⟩
  | next past l effects e l' more h _ change ih =>
    obtain ⟨own, hown, hmotive⟩ := ih
    rw [scheduled_snoc]
    unfold Moment.scheduled?
    rcases change.sides with ⟨e', hsome, hsending, hstate, heffects⟩ | ⟨hnone, hstate⟩
    · rw [hstate, heffects]
      dsimp only
      rw [hsome]
      exact ⟨_, .next hown e', scheduled past l effects own _ e h hsending hmotive⟩
    · rw [hstate]
      dsimp only
      rw [hnone]
      refine ⟨own, ?_, alone past l l' effects own more e h change hnone hmotive⟩
      show c.History (Lane.scheduled past ++ []) l.scheduler own
      rw [List.append_nil]
      exact hown

/-! ## what came back -/

/-- everything that was sent: the batches of the scheduler, and the requests sent alone -/
def servings (past : List Moment) : List Scheduler.Serving :=
  Scheduler.servings (scheduled past) ++ sendings past

/-- A response to a call for a request sent alone: at once, or later when the call waits for it. -/
inductive CameAlone (c : Scheduler) (past : List Moment) (v : Scheduler.Serving) (k : Nat)
    (response : Json) : Prop where
  | atOnce (came : Target.CameAtOnce v.transport (v.called c) k response)
  | later (m : Moment) (solo : Solo) (one : m ∈ past)
      (event : m.event = .resume solo.request.ticket k (.done response))
      (waiting : solo ∈ m.lane.solos) (served : v.batch = [solo.request])
      (waits : solo.exchange.slots[k]? = some .waiting)

theorem CameAlone.mono {c : Scheduler} {past : List Moment} {v : Scheduler.Serving} {k : Nat}
    {response : Json} (h : CameAlone c past v k response) (more : List Moment) :
    CameAlone c (past ++ more) v k response := by
  cases h with
  | atOnce came => exact .atOnce came
  | later m solo one event waiting served waits =>
    exact .later m solo (List.mem_append_left _ one) event waiting served waits

/-- A response to a call for something that was sent: for a batch of the scheduler, or for a request
sent alone. -/
inductive CameBack (c : Scheduler) (past : List Moment) (v : Scheduler.Serving) (k : Nat)
    (response : Json) : Prop where
  | batch (id : Nat) (served : (Scheduler.servings (scheduled past))[id]? = some v)
      (came : c.CameBack (scheduled past) id k response)
  | alone (sent : v ∈ sendings past) (came : CameAlone c past v k response)

theorem CameBack.mono {c : Scheduler} {past : List Moment} {v : Scheduler.Serving} {k : Nat}
    {response : Json} (h : CameBack c past v k response) (more : List Moment) :
    CameBack c (past ++ more) v k response := by
  cases h with
  | batch id served came =>
    refine .batch id ?_ ?_
    · rw [scheduled_append, Scheduler.servings_append,
        List.getElem?_append_left (List.getElem?_eq_some_iff.mp served).1]
      exact served
    · rw [scheduled_append]
      exact came.mono _
  | alone sent came =>
    refine .alone ?_ (came.mono more)
    rw [sendings_append]
    exact List.mem_append_left _ sent

/-- A value comes out of the response to a call for something that was sent, at the place that
belongs to the request with some ticket. -/
def Owns (c : Scheduler) (past : List Moment) (vs : List Scheduler.Serving) (ticket : Nat)
    (value : Json) : Prop :=
  ∃ v ∈ vs, ∃ p i k call response, p.ticket = ticket ∧ v.batch[i]? = some p ∧
    (v.called c)[k]? = some call ∧ i ∈ call.members ∧ CameBack c past v k response ∧
    c.target.codec.Holds (v.batch.map fun p => p.item.request) v.transport.round call.body
      call.members i response value

theorem Owns.mono {c : Scheduler} {past : List Moment} {vs vs' : List Scheduler.Serving}
    {ticket : Nat} {value : Json} (h : Owns c past vs ticket value) (hsub : vs ⊆ vs')
    (more : List Moment) : Owns c (past ++ more) vs' ticket value := by
  obtain ⟨v, hv, p, i, k, call, response, hticket, hi, hk, hmem, hcame, hholds⟩ := h
  exact ⟨v, hsub hv, p, i, k, call, response, hticket, hi, hk, hmem, hcame.mono more, hholds⟩

/-- the value that belongs to a request sent alone -/
theorem owns_alone {c : Scheduler} {past : List Moment} {v : Scheduler.Serving} {p : Pending}
    (hv : v ∈ sendings past) (hbatch : v.batch = [p]) {ship : Shipment}
    (hcalled : v.called c = ship.calls.map (c.target.call ship)) {results : List Json}
    (hlen : results.length = 1)
    (hanswers : Exchange.Answers c.target.codec [p.item.request] v.transport.round ship.calls
      (CameAlone c past v) results) {ticket : Nat} {value : Json}
    (hanswer : (ticket, .ok value) ∈ answers [conclude p.ticket (.done results)]) :
    Owns c past (sendings past) ticket value := by
  obtain ⟨r, rfl⟩ := List.length_eq_one_iff.mp hlen
  have htold : (ticket, (.ok value : Except Error Json)) = (p.ticket, .ok r) :=
    List.mem_singleton.mp hanswer
  cases htold
  obtain ⟨k, call, response, hk, hmem, hcame, hholds⟩ := hanswers 0 value rfl
  refine ⟨v, hv, p, 0, k, c.target.call ship call, response, rfl, ?_, ?_, hmem, .alone hv hcame, ?_⟩
  · rw [hbatch]
    rfl
  · rw [hcalled, List.getElem?_map, hk]
    rfl
  · rw [hbatch]
    exact hholds

/-! ## requests sent alone -/

/-- A request sent alone waits for what was started for it, with the responses that came back
since. -/
structure Kept (c : Scheduler) (past : List Moment) (solo : Solo) (v : Scheduler.Serving)
    (ship : Shipment) : Prop where
  sent : v ∈ sendings past
  batch : v.batch = [solo.request]
  ships : c.target.Ships v.transport.round [solo.request.item] ship
  calls : solo.exchange.calls = ship.calls
  called : v.called c = ship.calls.map (c.target.call ship)
  backed : solo.exchange.Backed c.target.codec (CameAlone c past v)

theorem Kept.mono {c : Scheduler} {past : List Moment} {solo : Solo} {v : Scheduler.Serving}
    {ship : Shipment} (h : Kept c past solo v ship) (more : List Moment) :
    Kept c (past ++ more) solo v ship where
  sent := by
    rw [sendings_append]
    exact List.mem_append_left _ h.sent
  batch := h.batch
  ships := h.ships
  calls := h.calls
  called := h.called
  backed := h.backed.mono fun k response hcame => hcame.mono more

theorem sendings_snoc (past : List Moment) (m : Moment) :
    sendings (past ++ [m]) = sendings past ++ m.event.sending?.toList := by
  rw [sendings_append]
  unfold sendings
  cases h : m.event.sending? with
  | none => simp [h]
  | some v => simp [h]

theorem sending?_execute {now : Int} {transport : Transport} {p : Pending}
    (subscription : p.item.isSubscription = true) :
    (Event.execute now transport p).sending? = some ⟨now, transport, [p]⟩ := if_pos subscription

theorem resume_came {c : Scheduler} {past : List Moment} {l : Lane} {solo : Solo} {call : Nat}
    {outcome : Outcome Json} (one : solo ∈ l.solos) {v : Scheduler.Serving}
    (hbatch : v.batch = [solo.request]) (response : Json)
    (hwaits : solo.exchange.slots[call]? = some .waiting) (hdone : outcome = .done response) :
    CameAlone c (past ++ [⟨l, .resume solo.request.ticket call outcome⟩]) v call response := by
  subst hdone
  exact .later _ solo (List.mem_append_right _ (List.mem_singleton_self _)) rfl one hbatch hwaits

theorem History.alone {c : Scheduler} {past : List Moment} {l : Lane} {effects : List Effect}
    (h : History c past l effects) : ∀ solo ∈ l.solos, ∃ v ship, Kept c past solo v ship := by
  induction h using History.by_changes with
  | start => exact fun solo hsolo => absurd hsolo List.not_mem_nil
  | next past l effects e l' more h _ change ih =>
    have old : ∀ solo ∈ l.solos, ∃ v ship, Kept c (past ++ [⟨l, e⟩]) solo v ship := by
      intro solo hsolo
      obtain ⟨v, ship, hkept⟩ := ih solo hsolo
      exact ⟨v, ship, hkept.mono _⟩
    cases change with
    | scheduled _ e' same alone solos fewer => exact fun solo hsolo => old solo (fewer.subset hsolo)
    | started now transport p subscription exchange running =>
      intro solo hsolo
      rcases List.mem_append.mp hsolo with hsolo | hsolo
      · exact old solo hsolo
      · rw [List.mem_singleton.mp hsolo]
        have hstart : c.target.start now transport [p.item]
            = (Scheduler.Serving.called c ⟨now, transport, [p]⟩, .running exchange) :=
          Prod.ext rfl running
        obtain ⟨ship, hships, hcalls, hcalled, hbacked, _⟩ := Target.start_running hstart
        rw [hcalls] at hcalled
        refine ⟨⟨now, transport, [p]⟩, ship, ?_, rfl, hships, hcalls, hcalled, ?_⟩
        · rw [sendings_snoc, sending?_execute subscription]
          exact List.mem_append_right _ (List.mem_singleton_self _)
        · exact hbacked.mono fun k response hcame => .atOnce hcame
    | ended => exact old
    | idle => exact old
    | resumed call outcome solo one others fewer apart exchange running =>
      intro solo' hsolo'
      rcases List.mem_append.mp hsolo' with hsolo' | hsolo'
      · exact old solo' (fewer.subset hsolo')
      · rw [List.mem_singleton.mp hsolo']
        obtain ⟨v, ship, hkept⟩ := old solo one
        obtain ⟨hcalls, hbacked⟩ := Exchange.resume_running hkept.backed
          (fun k response hcame => hcame) (resume_came one hkept.batch) running
        exact ⟨v, ship, hkept.sent, hkept.batch, hkept.ships, hcalls.trans hkept.calls,
          hkept.called, hbacked⟩
    | finished call outcome solo one others fewer =>
      exact fun solo' hsolo' => old solo' (fewer.subset hsolo')

/-! ## the scheduler -/

theorem conclude_ok {ticket ticket' : Nat} {value : Json} {outcome : Outcome (List Json)}
    (h : (ticket', .ok value) ∈ answers [conclude ticket outcome]) :
    ∃ results, outcome = .done results := by
  cases outcome with
  | done results => exact ⟨results, rfl⟩
  | failed cause =>
    have htold : (ticket', (.ok value : Except Error Json)) = (ticket, .error cause) :=
      List.mem_singleton.mp h
    cases htold
  | crashed => exact absurd h List.not_mem_nil

theorem calls_conclude (ticket : Nat) (outcome : Outcome (List Json)) :
    calls [conclude ticket outcome] = [] := by
  cases outcome <;> rfl

section
variable {c : Scheduler} {past : List Moment} {l l' : Lane} {effects more : List Effect} {e : Event}

/-- Calls that the scheduler does not start are those for a request sent alone. -/
theorem Change.calls_alone (h : Change c l e l' more) (other : e.scheduled? = none) :
    calls more = e.sending?.toList.flatMap (Scheduler.Serving.calls c) := by
  cases h with
  | scheduled _ e' same =>
    rw [other] at same
    cases same
  | started now transport p subscription =>
    rw [calls_called, sending?_execute subscription, Option.toList_some, List.flatMap_singleton]
    rfl
  | ended now transport p subscription outcome =>
    rw [calls_append, calls_called, calls_conclude, List.append_nil, sending?_execute subscription,
      Option.toList_some, List.flatMap_singleton]
    rfl
  | idle => rfl
  | resumed => rfl
  | finished call outcome solo one others fewer apart result => exact calls_conclude _ result

/-- Values that the scheduler does not tell are those of requests sent alone. -/
theorem Change.owns (h : History c past l effects) (change : Change c l e l' more)
    (other : e.scheduled? = none) {ticket : Nat} {value : Json}
    (ha : (ticket, .ok value) ∈ answers more) :
    Owns c (past ++ [⟨l, e⟩]) (sendings (past ++ [⟨l, e⟩])) ticket value := by
  cases change with
  | scheduled _ e' same =>
    rw [other] at same
    cases same
  | started =>
    rw [answers_called] at ha
    exact absurd ha List.not_mem_nil
  | ended now transport p subscription outcome ends =>
    rw [answers_append, answers_called, List.nil_append] at ha
    obtain ⟨results, rfl⟩ := conclude_ok ha
    have hstart : c.target.start now transport [p.item]
        = (Scheduler.Serving.called c ⟨now, transport, [p]⟩, .ended (.done results)) :=
      Prod.ext rfl ends
    obtain ⟨hlen, hrest⟩ := Target.start_done hstart
    obtain ⟨ship, hships, hcalled, hanswers⟩ := hrest (List.cons_ne_nil _ _)
    refine owns_alone (v := ⟨now, transport, [p]⟩) ?_ rfl hcalled hlen ?_ ha
    · rw [sendings_snoc, sending?_execute subscription]
      exact List.mem_append_right _ (List.mem_singleton_self _)
    · intro i value hi
      obtain ⟨k, call, response, hk, hmem, hcame, hholds⟩ := hanswers i value hi
      exact ⟨k, call, response, hk, hmem, .atOnce hcame, hholds⟩
  | idle => exact absurd ha List.not_mem_nil
  | resumed => exact absurd ha List.not_mem_nil
  | finished call outcome solo one others fewer apart result ends =>
    obtain ⟨results, rfl⟩ := conclude_ok ha
    obtain ⟨v, ship, hkept⟩ := h.alone solo one
    have hkept := hkept.mono [⟨l, .resume solo.request.ticket call outcome⟩]
    have hencode : c.target.codec.encode [solo.request.item.request] v.transport.round
        = .done solo.exchange.calls := by
      rw [hkept.calls]
      exact hkept.ships.encode
    obtain ⟨hlen, hanswers⟩ := Exchange.resume_done hkept.backed (fun k response hcame => hcame)
      (resume_came one hkept.batch) hencode ends
    rw [hkept.calls] at hanswers
    exact owns_alone hkept.sent hkept.batch hkept.called hlen hanswers ha

end

/-- What happened to the scheduler is a history of it; all other calls and values are those of
requests sent alone. -/
theorem History.scheduler {c : Scheduler} {past : List Moment} {l : Lane} {effects : List Effect}
    (h : History c past l effects) :
    ∃ own, c.History (scheduled past) l.scheduler own ∧
      (calls effects).Perm (calls own ++ (sendings past).flatMap (Scheduler.Serving.calls c)) ∧
      ∀ (ticket : Nat) (value : Json), (ticket, .ok value) ∈ answers effects →
        (ticket, .ok value) ∈ answers own ∨ Owns c past (sendings past) ticket value := by
  have hgrows : ∀ past (m : Moment), sendings past ⊆ sendings (past ++ [m]) := by
    intro past m
    rw [sendings_snoc]
    exact List.subset_append_left _ _
  refine h.by_sides (motive := fun past effects own =>
    (calls effects).Perm (calls own ++ (sendings past).flatMap (Scheduler.Serving.calls c)) ∧
      ∀ (ticket : Nat) (value : Json), (ticket, .ok value) ∈ answers effects →
        (ticket, .ok value) ∈ answers own ∨ Owns c past (sendings past) ticket value) ?_ ?_ ?_
  · exact ⟨List.Perm.refl _, fun _ _ ha => absurd ha List.not_mem_nil⟩
  · rintro past l effects own more e _ hsending ⟨hcalls, hanswers⟩
    refine ⟨?_, fun ticket value ha => ?_⟩
    · rw [calls_append, calls_append, sendings_snoc]
      show (_ : List (Call × List Pending)).Perm
        (_ ++ (sendings past ++ e.sending?.toList).flatMap (Scheduler.Serving.calls c))
      rw [hsending]
      refine Multiset.coe_eq_coe.mp ?_
      have hc := Multiset.coe_eq_coe.mpr hcalls
      simp only [Option.toList_none, List.append_nil, ← Multiset.coe_add] at hc ⊢
      rw [hc]
      abel
    · rw [answers_append] at ha ⊢
      rcases List.mem_append.mp ha with ha | ha
      · rcases hanswers ticket value ha with ho | ho
        · exact Or.inl (List.mem_append_left _ ho)
        · exact Or.inr (ho.mono (hgrows past _) _)
      · exact Or.inl (List.mem_append_right _ ha)
  · rintro past l l' effects own more e h change other ⟨hcalls, hanswers⟩
    refine ⟨?_, fun ticket value ha => ?_⟩
    · rw [calls_append, change.calls_alone other, sendings_snoc, List.flatMap_append,
        ← List.append_assoc]
      exact hcalls.append_right _
    · rw [answers_append] at ha
      rcases List.mem_append.mp ha with ha | ha
      · rcases hanswers ticket value ha with ho | ho
        · exact Or.inl ho
        · exact Or.inr (ho.mono (hgrows past _) _)
      · exact Or.inr (change.owns h other ha)

end Lane

end Coalesce
