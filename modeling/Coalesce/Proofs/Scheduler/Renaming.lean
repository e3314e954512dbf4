import Coalesce.Proofs.Batch.Renaming
import Coalesce.Proofs.Scheduler.Frame

/-!
# A scheduler under renamed tokens

* `Pending.retoken`, `Scheduler.State.retoken`, `Effect.retoken`
                             the same with the tokens of all requests renamed;
* `Target.start_retoken`     tokens are not sent;
* `Scheduler.batches_retoken`
                             they are compared, and a renaming that is injective keeps comparisons;
* `Scheduler.step_retoken`   a step with renamed tokens is the step, with renamed tokens.
-/

namespace Coalesce

section
variable (ρ : Nat → Nat)

def Pending.retoken (p : Pending) : Pending := { p with item := p.item.retoken ρ }

def Flush.retoken (f : Flush) : Flush := { f with items := f.items.map (Pending.retoken ρ) }

def Delivery.retoken (d : Delivery) : Delivery :=
  { d with members := d.members.map (Pending.retoken ρ) }

/-- Nothing but the requests of a batch has tokens. -/
def Effect.retoken : Effect → Effect
  | .called call batch => .called call (batch.map (Pending.retoken ρ))
  | .answered ticket result => .answered ticket result
  | .crashed ticket => .crashed ticket
  | .noted notice => .noted notice

/-! ## calls and targets -/

theorem calls_retoken (effects : List Effect) :
    (calls (effects.map (Effect.retoken ρ))).map (·.1) = (calls effects).map (·.1) := by
  unfold calls
  rw [List.filterMap_map, List.map_filterMap, List.map_filterMap]
  refine List.filterMap_congr fun e _ => ?_
  cases e <;> rfl

theorem answers_retoken (effects : List Effect) :
    answers (effects.map (Effect.retoken ρ)) = answers effects := by
  unfold answers
  rw [List.filterMap_map]
  refine List.filterMap_congr fun e _ => ?_
  cases e <;> rfl

theorem items_retoken (ps : List Pending) :
    (ps.map (Pending.retoken ρ)).map (·.item) = (ps.map (·.item)).map (Item.retoken ρ) := by
  rw [List.map_map, List.map_map]
  rfl

/-- A target looks at the requests themselves, at headers and at deadlines. -/
theorem Target.start_retoken (t : Target) (now : Int) (transport : Transport) (items : List Item) :
    t.start now transport (items.map (Item.retoken ρ)) = t.start now transport items := by
  cases items with
  | nil => rfl
  | cons first rest =>
    have hdeadline : earliestDeadline ((first :: rest).map (Item.retoken ρ))
        = earliestDeadline (first :: rest) := by
      unfold earliestDeadline
      rw [List.map_map]
      rfl
    have hrequests : ((first :: rest).map (Item.retoken ρ)).map (·.request)
        = (first :: rest).map (·.request) := by
      rw [List.map_map]
      rfl
    have hprepare : t.prepare now transport.round (first.retoken ρ) (rest.map (Item.retoken ρ))
        = t.prepare now transport.round first rest := by
      unfold Target.prepare
      rw [← List.map_cons, hdeadline, hrequests]
      rfl
    unfold Target.start
    rw [List.map_cons]
    dsimp only
    rw [hprepare]

namespace Scheduler

/-! ## states and events -/

def Worker.retoken : Worker → Worker
  | .working batches => .working (batches.map fun b => b.map (Pending.retoken ρ))
  | .gone => .gone

def State.retoken (s : State) : State :=
  { s with
    pending := s.pending.map (Pending.retoken ρ)
    queue := s.queue.map (Flush.retoken ρ)
    worker := s.worker.retoken ρ
    deliveries := s.deliveries.map (Delivery.retoken ρ) }

def Event.retoken : Event → Event
  | .submit p => .submit (p.retoken ρ)
  | e => e

/-- The one comes to the same as the other, with renamed tokens. -/
def Renamed (x y : State × List Effect) : Prop :=
  y = (x.1.retoken ρ, x.2.map (Effect.retoken ρ))

variable (c : Scheduler) (s : State)

/-! ## answers -/

theorem answer_retoken (p : Pending) (result : Except Error Json) :
    answer (s.retoken ρ) (p.retoken ρ) result = (answer s p result).map (Effect.retoken ρ) := by
  have hleft : answer (s.retoken ρ) (p.retoken ρ) result = answer s p result := rfl
  rw [hleft]
  unfold answer
  split <;> rfl

theorem answers_all_retoken (ps : List Pending) (result : Except Error Json) :
    (ps.map (Pending.retoken ρ)).flatMap (fun p => answer (s.retoken ρ) p result)
      = (ps.flatMap fun p => answer s p result).map (Effect.retoken ρ) := by
  rw [List.flatMap_map, List.map_flatMap]
  exact List.flatMap_congr fun p _ => answer_retoken ρ s p result

theorem deliver_retoken (ps : List Pending) (rs : List Json) :
    c.deliver (s.retoken ρ) (ps.map (Pending.retoken ρ)) rs
      = (c.deliver s ps rs).map (Effect.retoken ρ) := by
  induction ps generalizing rs with
  | nil => cases rs <;> rfl
  | cons p ps ih =>
    cases rs with
    | nil => exact answers_all_retoken ρ s (p :: ps) (.error c.dropped)
    | cons r rs =>
      rw [List.map_cons, deliver, deliver, List.map_append, ih, answer_retoken]

theorem ending_retoken (members : List Pending) (outcome : Outcome (List Json)) :
    c.ending (s.retoken ρ) (members.map (Pending.retoken ρ)) outcome
      = (c.ending s members outcome).map (Effect.retoken ρ) := by
  cases outcome with
  | done results => exact deliver_retoken ρ c s members results
  | failed cause =>
    show Effect.noted (.batchFailed c.target.name (members.map (Pending.retoken ρ)).length cause)
      :: _ = _
    rw [List.length_map, answers_all_retoken]
    rfl
  | crashed => exact answers_all_retoken ρ s members (.error c.dropped)

theorem called_retoken (called : List Call) (batch : List Pending) :
    called.map (fun call => Effect.called call (batch.map (Pending.retoken ρ)))
      = (called.map fun call => Effect.called call batch).map (Effect.retoken ρ) := by
  rw [List.map_map]
  rfl

/-! ## windows -/

theorem sift_retoken (now : Int) (items : List Pending) :
    c.sift now (s.retoken ρ) (items.map (Pending.retoken ρ))
      = ((c.sift now s items).1.map (Pending.retoken ρ),
          (c.sift now s items).2.map (Effect.retoken ρ)) := by
  induction items with
  | nil => rfl
  | cons p rest ih =>
    rw [List.map_cons]
    unfold sift
    rw [ih]
    have htime : c.inTime now (p.retoken ρ) = c.inTime now p := rfl
    have hticket : (p.retoken ρ).ticket = p.ticket := rfl
    have hleft : (s.retoken ρ).left = s.left := rfl
    rw [htime, hticket, hleft]
    dsimp only
    split
    · rfl
    · cases c.inTime now p with
      | ok limit => rfl
      | error cause =>
        dsimp only
        rw [List.map_append, answer_retoken]

theorem batches_retoken {ρ : Nat → Nat} (inj : Function.Injective ρ) (live : List Pending) :
    c.batches (live.map (Pending.retoken ρ))
      = (c.batches live).map fun b => b.map (Pending.retoken ρ) := by
  have hindices : ∀ bs : List (Batch Item), (bs.map fun b =>
      b.indices.filterMap fun i => (live.map (Pending.retoken ρ))[i]?)
        = ((bs.map Batch.indices).map fun is => is.filterMap fun i => live[i]?).map fun b =>
            b.map (Pending.retoken ρ) := by
    intro bs
    rw [List.map_map, List.map_map]
    refine List.map_congr_left fun b _ => ?_
    show _ = (b.indices.filterMap fun i => live[i]?).map (Pending.retoken ρ)
    rw [List.map_filterMap]
    exact List.filterMap_congr fun i _ => List.getElem?_map ..
  unfold batches
  rw [hindices, items_retoken, Strategy.partition_retoken inj, List.map_map, List.map_map,
    List.map_map]
  rfl

theorem close_retoken (trigger : Trigger) :
    Renamed ρ (c.close trigger s) (c.close trigger (s.retoken ρ)) := by
  by_cases hempty : s.pending = []
  · have hempty' : (s.retoken ρ).pending = [] := List.map_eq_nil_iff.mpr hempty
    rw [c.close_empty trigger hempty, c.close_empty trigger hempty']
    rfl
  · have hfilled : (s.retoken ρ).pending ≠ [] := fun h => hempty (List.map_eq_nil_iff.mp h)
    cases hworker : s.worker with
    | working batches =>
      have hworker' : (s.retoken ρ).worker
          = .working (batches.map fun b => b.map (Pending.retoken ρ)) :=
        congrArg (Worker.retoken ρ) hworker
      rw [c.close_working trigger hempty hworker, c.close_working trigger hfilled hworker']
      unfold Renamed State.retoken
      rw [List.map_append]
      rfl
    | gone =>
      have hworker' : (s.retoken ρ).worker = .gone := congrArg (Worker.retoken ρ) hworker
      have hdrop : c.drop (s.retoken ρ) (s.retoken ρ).pending = _ :=
        answers_all_retoken ρ s s.pending (.error c.dropped)
      have hlength : (s.retoken ρ).pending.length = s.pending.length := List.length_map ..
      rw [c.close_gone trigger hempty hworker, c.close_gone trigger hfilled hworker', hdrop, hlength]
      rfl

theorem submit_retoken (p : Pending) :
    Renamed ρ (c.submit p s) (c.submit (p.retoken ρ) (s.retoken ρ)) := by
  have hwider : { s.retoken ρ with pending := (s.retoken ρ).pending ++ [p.retoken ρ] }
      = ({ s with pending := s.pending ++ [p] } : State).retoken ρ := by
    unfold State.retoken
    rw [List.map_append]
    rfl
  have hlength : ((s.retoken ρ).pending ++ [p.retoken ρ]).length = (s.pending ++ [p]).length := by
    rw [List.length_append, List.length_append]
    show (s.pending.map _).length + 1 = s.pending.length + 1
    rw [List.length_map]
  rw [submit_eq, submit_eq, hlength, hwider]
  split
  · exact close_retoken ρ c _ .size
  · split
    · let timers : List Timer := s.timers ++ [⟨s.generation, p.arrived + c.settings.waitMillis⟩]
      exact congrArg (fun t : State => ({ t with timers }, [])) hwider
    · rfl

theorem expire_retoken (generation : Nat) :
    Renamed ρ (c.expire generation s) (c.expire generation (s.retoken ρ)) := by
  rw [expire_eq, expire_eq]
  show Renamed ρ _ (if s.timers.any fun t => t.generation = generation then
    if generation = s.generation then _ else _ else _)
  split
  · split
    · exact close_retoken ρ c
        { s with timers := s.timers.filter fun t => t.generation ≠ generation } .timer
    · rfl
  · rfl

/-! ## dispatching -/

theorem working_retoken {ρ : Nat → Nat} {s : State} (h : (s.retoken ρ).worker = .working []) :
    s.worker = .working [] := by
  have hworker : s.worker.retoken ρ = .working [] := h
  cases hs : s.worker with
  | gone =>
    rw [hs] at hworker
    cases hworker
  | working batches =>
    rw [hs] at hworker
    rw [List.map_eq_nil_iff.mp (Worker.working.inj hworker)]

theorem take_retoken {ρ : Nat → Nat} (inj : Function.Injective ρ) (now : Int) :
    Renamed ρ (c.take now s) (c.take now (s.retoken ρ)) := by
  rcases next_or_idle s with ⟨f, queue, hworking, hnext⟩ | hidle
  · have hworking' : (s.retoken ρ).worker = .working [] := congrArg (Worker.retoken ρ) hworking
    have hnext' : (s.retoken ρ).queue = f.retoken ρ :: queue.map (Flush.retoken ρ) :=
      congrArg (List.map (Flush.retoken ρ)) hnext
    have hsift : c.sift now (s.retoken ρ) (f.retoken ρ).items = _ :=
      sift_retoken ρ c s now f.items
    rw [c.take_next now hworking hnext, c.take_next now hworking' hnext', hsift]
    dsimp only
    rw [List.isEmpty_map, c.batches_retoken inj, List.length_map, List.length_map]
    split
    · rfl
    · unfold Renamed
      rw [List.map_append]
      rfl
  · have hidle' : ∀ f queue, (s.retoken ρ).worker = .working [] → (s.retoken ρ).queue ≠ f :: queue := by
      intro f queue hworking hnext
      obtain ⟨f', queue', hqueue, _⟩ := List.map_eq_cons_iff.mp hnext
      exact hidle f' queue' (working_retoken hworking) hqueue
    rw [c.take_idle now hidle, c.take_idle now hidle']
    rfl

/-- what is lost when the dispatcher crashes -/
theorem lost_retoken (members : List Pending) (rest : List (List Pending)) :
    members.map (Pending.retoken ρ) ++ (rest.map fun b => b.map (Pending.retoken ρ)).flatten
        ++ (s.retoken ρ).queue.flatMap Flush.items
      = (members ++ rest.flatten ++ s.queue.flatMap Flush.items).map (Pending.retoken ρ) := by
  have hqueue : (s.retoken ρ).queue.flatMap Flush.items
      = (s.queue.flatMap Flush.items).map (Pending.retoken ρ) := by
    show (s.queue.map (Flush.retoken ρ)).flatMap Flush.items = _
    rw [List.flatMap_map, List.map_flatMap]
    rfl
  rw [hqueue, List.map_append, List.map_append, List.map_flatten]

theorem serve_retoken (now : Int) (transport : Transport) :
    Renamed ρ (c.serve now transport s) (c.serve now transport (s.retoken ρ)) := by
  cases hserving : Moment.serving? ⟨s, .serve now transport⟩ with
  | none =>
    have hserving' : Moment.serving? ⟨s.retoken ρ, .serve now transport⟩ = none := by
      cases hworker : s.worker with
      | gone =>
        unfold Moment.serving? State.retoken
        rw [hworker]
        rfl
      | working batches =>
        cases batches with
        | nil =>
          unfold Moment.serving? State.retoken
          rw [hworker]
          rfl
        | cons batch rest =>
          rw [serving?_serve now transport hworker] at hserving
          cases hserving
    rw [c.serve_idle now transport hserving, c.serve_idle now transport hserving']
    rfl
  | some v =>
    obtain ⟨hevent, rest, hworking⟩ := serving?_eq_some hserving
    obtain ⟨rfl, rfl⟩ := Event.serve.inj hevent
    let v' : Serving := ⟨v.now, v.transport, v.batch.map (Pending.retoken ρ)⟩
    have hworking' : (s.retoken ρ).worker
        = .working (v'.batch :: rest.map fun b => b.map (Pending.retoken ρ)) :=
      congrArg (Worker.retoken ρ) hworking
    have hstart : c.target.start v'.now v'.transport (v'.batch.map (·.item))
        = c.target.start v.now v.transport (v.batch.map (·.item)) := by
      rw [items_retoken, Target.start_retoken]
    have hcalled : v'.called c = v.called c := congrArg Prod.fst hstart
    have hprogress' : v'.progress c = v.progress c := congrArg Prod.snd hstart
    cases hprogress : v.progress c with
    | running exchange =>
      have hserve := c.serve_running hworking' (hprogress'.trans hprogress)
      rw [c.serve_running hworking hprogress]
      unfold Renamed
      show c.serve v'.now v'.transport (s.retoken ρ) = _
      rw [hserve, hcalled, called_retoken]
      unfold State.retoken
      rw [List.map_append]
      rfl
    | ended outcome =>
      by_cases halive : outcome = .crashed
      · subst halive
        rw [c.serve_crashed hworking hprogress]
        unfold Renamed
        show c.serve v'.now v'.transport (s.retoken ρ) = _
        have hdrop : c.drop (s.retoken ρ)
            ((v.batch ++ rest.flatten ++ s.queue.flatMap Flush.items).map (Pending.retoken ρ)) = _ :=
          answers_all_retoken ρ s _ (.error c.dropped)
        rw [c.serve_crashed hworking' (hprogress'.trans hprogress), hcalled, called_retoken,
          lost_retoken ρ s v.batch rest, hdrop, List.map_append]
        rfl
      · rw [c.serve_ended hworking halive hprogress]
        unfold Renamed
        show c.serve v'.now v'.transport (s.retoken ρ) = _
        rw [c.serve_ended hworking' halive (hprogress'.trans hprogress), hcalled, called_retoken,
          ending_retoken, List.map_append]
        rfl

theorem finish_retoken (id call : Nat) (outcome : Outcome Json) :
    Renamed ρ (c.finish id call outcome s) (c.finish id call outcome (s.retoken ρ)) := by
  have hfind : (s.retoken ρ).deliveries.find? (fun d => d.id = id)
      = (s.deliveries.find? fun d => d.id = id).map (Delivery.retoken ρ) := List.find?_map ..
  rcases c.finish_cases id call outcome s with ⟨hnone, hs⟩ | ⟨d, hfound, hs⟩
  · rcases c.finish_cases id call outcome (s.retoken ρ) with ⟨_, hs'⟩ | ⟨d', hfound', _⟩
    · rw [hs, hs']
      rfl
    · rw [hfind, hnone] at hfound'
      cases hfound'
  · rw [hfound] at hfind
    rcases c.finish_cases id call outcome (s.retoken ρ) with ⟨hnone', _⟩ | ⟨d', hfound', hs'⟩
    · cases hfind.symm.trans hnone'
    · cases hfind.symm.trans hfound'
      have hexchange : (d.retoken ρ).exchange = d.exchange := rfl
      have hending := ending_retoken ρ c s d.members
      rw [hs, hs', hexchange]
      cases d.exchange.resume c.target.codec call outcome with
      | running exchange =>
        have hupdate : (s.retoken ρ).deliveries.map (Delivery.update id exchange)
            = (s.deliveries.map (Delivery.update id exchange)).map (Delivery.retoken ρ) := by
          show (s.deliveries.map (Delivery.retoken ρ)).map (Delivery.update id exchange) = _
          rw [List.map_map, List.map_map]
          refine List.map_congr_left fun d _ => ?_
          show (d.retoken ρ).update id exchange = (d.update id exchange).retoken ρ
          unfold Delivery.update
          show (if d.id = id then _ else _) = _
          split <;> rfl
        exact congrArg (fun deliveries => ((s.retoken ρ).awaiting deliveries, [])) hupdate
      | ended result =>
        have hothers : ((s.retoken ρ).deliveries.filter fun d => d.id ≠ id)
            = (s.deliveries.filter fun d => d.id ≠ id).map (Delivery.retoken ρ) := List.filter_map ..
        exact congrArg₂ (fun deliveries effects => ((s.retoken ρ).awaiting deliveries, effects)) hothers
          (hending result)

/-- **A step with renamed tokens** is the step, with renamed tokens. -/
theorem step_retoken {ρ : Nat → Nat} (inj : Function.Injective ρ) (e : Event) :
    c.step (s.retoken ρ) (e.retoken ρ)
      = ((c.step s e).1.retoken ρ, (c.step s e).2.map (Effect.retoken ρ)) := by
  cases e with
  | submit p => exact submit_retoken ρ c s p
  | leave ticket => rfl
  | expire generation => exact expire_retoken ρ c s generation
  | flush => exact close_retoken ρ c s .manual
  | take now => exact take_retoken c s inj now
  | serve now transport => exact serve_retoken ρ c s now transport
  | finish id call outcome => exact finish_retoken ρ c s id call outcome

end Scheduler

end

end Coalesce
