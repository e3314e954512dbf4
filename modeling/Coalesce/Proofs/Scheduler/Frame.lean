import Coalesce.Proofs.Dispatch.Agreement
import Coalesce.Proofs.Scheduler.Batches

/-!
# What is read for what

* `Delivery.update`         what comes back for one batch, among the deliveries of all;
* `Scheduler.close_working`, `Scheduler.submit_eq`, `Scheduler.expire_eq`, `Scheduler.take_next`
                            what events come to for the window and the dispatcher;
* `Scheduler.withCodec`     the same scheduler with another codec;
* `Scheduler.step_frame`    what happens to windows depends neither on what batches wait for nor on
                            the codec;
* `Scheduler.serve_running`, `Scheduler.serve_ended`, `Scheduler.serve_crashed`,
  `Scheduler.finish_cases`  what the other events come to, case by case.
-/

namespace Coalesce

/-! ## deliveries of other batches -/

namespace Delivery

/-- the delivery with some number waits for something else -/
def update (i : Nat) (exchange : Exchange) (d : Delivery) : Delivery :=
  if d.id = i then { d with exchange } else d

theorem update_id (i : Nat) (exchange : Exchange) (d : Delivery) :
    (d.update i exchange).id = d.id := by
  unfold update
  split <;> rfl

theorem update_members (i : Nat) (exchange : Exchange) (d : Delivery) :
    (d.update i exchange).members = d.members := by
  unfold update
  split <;> rfl

theorem update_other {i : Nat} (exchange : Exchange) {d : Delivery} (h : d.id ≠ i) :
    d.update i exchange = d := if_neg h

theorem filter_update (id i : Nat) (exchange : Exchange) (ds : List Delivery) :
    ((ds.map (update i exchange)).filter fun d => d.id ≠ id)
      = (ds.filter fun d => d.id ≠ id).map (update i exchange) := by
  have hsame : ((fun d : Delivery => decide (d.id ≠ id)) ∘ update i exchange)
      = fun d => decide (d.id ≠ id) := by
    funext d
    show decide ((d.update i exchange).id ≠ id) = _
    rw [d.update_id]
  rw [List.filter_map, hsame]

theorem filter_update_own (id : Nat) (exchange : Exchange) (ds : List Delivery) :
    ((ds.map (update id exchange)).filter fun d => d.id ≠ id)
      = ds.filter fun d => d.id ≠ id := by
  rw [filter_update]
  have hid : ∀ d ∈ ds.filter fun d => d.id ≠ id, d.update id exchange = d := fun d hd =>
    d.update_other exchange (of_decide_eq_true (List.mem_filter.mp hd).2)
  exact (List.map_congr_left hid).trans (List.map_id _)

/-- a batch with another number is found among the others -/
theorem find?_others {id i : Nat} (h : i ≠ id) (ds : List Delivery) :
    ((ds.filter fun d => d.id ≠ id).find? fun d => d.id = i) = ds.find? fun d => d.id = i := by
  rw [List.find?_filter]
  refine congrArg (fun q => ds.find? q) (funext fun d => ?_)
  by_cases hd : d.id = i
  · simp [hd, h]
  · simp [hd]

theorem find?_update (id i : Nat) (exchange : Exchange) (ds : List Delivery) :
    ((ds.map (update i exchange)).find? fun d => d.id = id)
      = (ds.find? fun d => d.id = id).map (update i exchange) := by
  have hsame : ((fun d : Delivery => decide (d.id = id)) ∘ update i exchange)
      = fun d => decide (d.id = id) := by
    funext d
    show decide ((d.update i exchange).id = id) = _
    rw [d.update_id]
  rw [List.find?_map, hsame]

theorem find?_update_own {id : Nat} (exchange : Exchange) {ds : List Delivery} {d : Delivery}
    (found : ds.find? (fun d => d.id = id) = some d) :
    ((ds.map (update id exchange)).find? fun d => d.id = id) = some { d with exchange } := by
  have hid : d.id = id := by simpa using List.find?_some found
  rw [find?_update, found]
  exact congrArg some (if_pos hid)

theorem find?_update_other {id i : Nat} (h : i ≠ id) (exchange : Exchange) (ds : List Delivery) :
    ((ds.map (update i exchange)).find? fun d => d.id = id) = ds.find? fun d => d.id = id := by
  rw [find?_update]
  cases hfound : ds.find? fun d => d.id = id with
  | none => rfl
  | some d =>
    have hid : d.id = id := by simpa using List.find?_some hfound
    exact congrArg some (d.update_other exchange fun heq => h (heq.symm.trans hid))

theorem find?_filter_own (id : Nat) (ds : List Delivery) :
    ((ds.filter fun d => d.id ≠ id).find? fun d => d.id = id) = none := by
  refine List.find?_eq_none.mpr fun d hd => ?_
  simpa using (List.mem_filter.mp hd).2

end Delivery

namespace Scheduler

/-! ## windows -/

theorem close_empty (c : Scheduler) (trigger : Trigger) {s : State} (empty : s.pending = []) :
    c.close trigger s = ({ s with pending := [], generation := s.generation + 1 }, []) := by
  unfold close
  dsimp only
  rw [empty]
  rfl

theorem close_working (c : Scheduler) (trigger : Trigger) {s : State} (filled : s.pending ≠ [])
    {batches : List (List Pending)} (working : s.worker = .working batches) :
    c.close trigger s = ({ s with
      pending := [], generation := s.generation + 1,
      queue := s.queue ++ [⟨trigger, s.pending⟩] }, []) := by
  unfold close
  dsimp only
  rw [if_neg (by simpa using filled), working]

theorem close_gone (c : Scheduler) (trigger : Trigger) {s : State} (filled : s.pending ≠ [])
    (gone : s.worker = .gone) :
    c.close trigger s = ({ s with pending := [], generation := s.generation + 1 },
      .noted (.windowLost c.target.name s.pending.length) :: c.drop s s.pending) := by
  unfold close
  dsimp only
  rw [if_neg (by simpa using filled), gone]
  rfl

theorem submit_eq (c : Scheduler) (p : Pending) (s : State) :
    c.submit p s =
      if c.settings.waitQueries ≤ (s.pending ++ [p]).length then
        c.close .size { s with pending := s.pending ++ [p] }
      else if (s.pending ++ [p]).length = 1 then
        ({ s with
          pending := s.pending ++ [p],
          timers := s.timers ++ [⟨s.generation, p.arrived + c.settings.waitMillis⟩] }, [])
      else ({ s with pending := s.pending ++ [p] }, []) := rfl

theorem expire_eq (c : Scheduler) (generation : Nat) (s : State) :
    c.expire generation s =
      if s.timers.any fun t => t.generation = generation then
        if generation = s.generation then
          c.close .timer { s with timers := s.timers.filter fun t => t.generation ≠ generation }
        else ({ s with timers := s.timers.filter fun t => t.generation ≠ generation }, [])
      else (s, []) := rfl

theorem take_idle (c : Scheduler) (now : Int) {s : State}
    (idle : ∀ f queue, s.worker = .working [] → s.queue ≠ f :: queue) :
    c.take now s = (s, []) := by
  unfold take
  split
  · rename_i f queue hworking hnext
    exact absurd hnext (idle f queue hworking)
  · rfl

theorem take_next (c : Scheduler) (now : Int) {s : State} {f : Flush} {queue : List Flush}
    (working : s.worker = .working []) (next : s.queue = f :: queue) :
    c.take now s =
      if (c.sift now s f.items).1.isEmpty then ({ s with queue }, (c.sift now s f.items).2)
      else ({ s with queue, worker := .working (c.batches (c.sift now s f.items).1) },
        (c.sift now s f.items).2 ++ [.noted (.flushed c.target.name c.settings.strategy
          f.trigger (c.sift now s f.items).1.length
          (c.batches (c.sift now s f.items).1).length)]) := by
  unfold take
  rw [working, next]

/-- The dispatcher takes the next window, or there is nothing to take. -/
theorem next_or_idle (s : State) :
    (∃ f queue, s.worker = .working [] ∧ s.queue = f :: queue) ∨
      ∀ f queue, s.worker = .working [] → s.queue ≠ f :: queue := by
  by_cases h : ∃ f queue, s.worker = .working [] ∧ s.queue = f :: queue
  · exact Or.inl h
  · exact Or.inr fun f queue working next => h ⟨f, queue, working, next⟩

/-! ## what a codec and deliveries are not read for -/

def withCodec (c : Scheduler) (k : Codec) : Scheduler :=
  { c with target := { c.target with codec := k } }

def State.awaiting (s : State) (ds : List Delivery) : State := { s with deliveries := ds }

/-- events of batches that are served -/
def Event.ofBatch : Event → Bool
  | .serve _ _ | .finish _ _ _ => true
  | _ => false

/-- The one comes to the same as the other, with other deliveries, and leaves deliveries alone. -/
def Framed (s : State) (ds : List Delivery) (x y : State × List Effect) : Prop :=
  y = (x.1.awaiting ds, x.2) ∧ x.1.deliveries = s.deliveries

section
variable (c : Scheduler) (k : Codec) (s : State) (ds : List Delivery)

theorem sift_frame (now : Int) (items : List Pending) :
    (c.withCodec k).sift now (s.awaiting ds) items = c.sift now s items := by
  induction items with
  | nil => rfl
  | cons p rest ih =>
    unfold sift
    rw [ih]
    rfl

theorem ending_frame (members : List Pending) (outcome : Outcome (List Json)) :
    (c.withCodec k).ending (s.awaiting ds) members outcome = c.ending s members outcome := by
  cases outcome with
  | done results =>
    show (c.withCodec k).deliver (s.awaiting ds) members results = c.deliver s members results
    induction members generalizing results with
    | nil => cases results <;> rfl
    | cons p ps ih =>
      cases results with
      | nil => rfl
      | cons r rs =>
        rw [deliver, deliver, ih]
        rfl
  | failed cause => rfl
  | crashed => rfl

theorem close_frame (trigger : Trigger) :
    Framed s ds (c.close trigger s) ((c.withCodec k).close trigger (s.awaiting ds)) := by
  unfold close Framed State.awaiting
  dsimp only
  split
  · exact ⟨rfl, rfl⟩
  · split
    · exact ⟨rfl, rfl⟩
    · exact ⟨rfl, rfl⟩

theorem submit_frame (p : Pending) :
    Framed s ds (c.submit p s) ((c.withCodec k).submit p (s.awaiting ds)) := by
  rw [submit_eq, submit_eq]
  show Framed s ds _ (if c.settings.waitQueries ≤ (s.pending ++ [p]).length then _
    else if (s.pending ++ [p]).length = 1 then _ else _)
  split
  · exact c.close_frame k { s with pending := s.pending ++ [p] } ds .size
  · split
    · exact ⟨rfl, rfl⟩
    · exact ⟨rfl, rfl⟩

theorem expire_frame (generation : Nat) :
    Framed s ds (c.expire generation s) ((c.withCodec k).expire generation (s.awaiting ds)) := by
  rw [expire_eq, expire_eq]
  show Framed s ds _ (if s.timers.any fun t => t.generation = generation then
    if generation = s.generation then _ else _ else _)
  split
  · split
    · exact c.close_frame k
        { s with timers := s.timers.filter fun t => t.generation ≠ generation } ds .timer
    · exact ⟨rfl, rfl⟩
  · exact ⟨rfl, rfl⟩

theorem take_frame (now : Int) :
    Framed s ds (c.take now s) ((c.withCodec k).take now (s.awaiting ds)) := by
  rcases next_or_idle s with ⟨f, queue, hworking, hnext⟩ | hidle
  · rw [c.take_next now hworking hnext,
      (c.withCodec k).take_next now (s := s.awaiting ds) hworking hnext, sift_frame]
    show Framed s ds _ (if (c.sift now s f.items).1.isEmpty then _ else _)
    split
    · exact ⟨rfl, rfl⟩
    · exact ⟨rfl, rfl⟩
  · rw [c.take_idle now hidle, (c.withCodec k).take_idle now (s := s.awaiting ds) hidle]
    exact ⟨rfl, rfl⟩

theorem step_frame {e : Event} (quiet : ¬ e.ofBatch) :
    Framed s ds (c.step s e) ((c.withCodec k).step (s.awaiting ds) e) := by
  cases e with
  | submit p => exact c.submit_frame k s ds p
  | leave ticket => exact ⟨rfl, rfl⟩
  | expire generation => exact c.expire_frame k s ds generation
  | flush => exact c.close_frame k s ds .manual
  | take now => exact c.take_frame k s ds now
  | serve now transport => exact absurd rfl quiet
  | finish id call outcome => exact absurd rfl quiet

theorem formed_frame (e : Event) :
    Moment.formed (c.withCodec k) ⟨s.awaiting ds, e⟩ = Moment.formed c ⟨s, e⟩ := by
  have hsift : ∀ now items, ((c.withCodec k).batches ((c.withCodec k).sift now (s.awaiting ds) items).1)
      = c.batches (c.sift now s items).1 := by
    intro now items
    rw [sift_frame]
    rfl
  cases e with
  | take now =>
    unfold Moment.formed
    dsimp only [State.awaiting] at hsift ⊢
    simp only [hsift]
  | _ => rfl

end

/-! ## batches that are served -/

section
variable {s : State}

theorem serve_idle (c : Scheduler) (now : Int) (transport : Transport)
    (h : Moment.serving? ⟨s, .serve now transport⟩ = none) : c.serve now transport s = (s, []) := by
  unfold serve
  split
  · rename_i members rest hworking
    rw [serving?_serve now transport hworking] at h
    cases h
  · rfl

theorem serve_running (c : Scheduler) {v : Serving} {rest : List (List Pending)}
    (working : s.worker = .working (v.batch :: rest)) {exchange : Exchange}
    (running : v.progress c = .running exchange) :
    c.serve v.now v.transport s = ({ s with
      worker := .working rest, nextDelivery := s.nextDelivery + 1,
      deliveries := s.deliveries ++ [⟨s.nextDelivery, v.batch, exchange⟩] },
      (v.called c).map fun call => Effect.called call v.batch) := by
  have hp : (c.target.start v.now v.transport (v.batch.map (·.item))).2 = .running exchange := running
  unfold serve
  rw [working]
  dsimp only
  rw [hp]
  rfl

theorem serve_ended (c : Scheduler) {v : Serving} {rest : List (List Pending)}
    (working : s.worker = .working (v.batch :: rest)) {outcome : Outcome (List Json)}
    (alive : outcome ≠ .crashed) (ended : v.progress c = .ended outcome) :
    c.serve v.now v.transport s = ({ s with
      worker := .working rest, nextDelivery := s.nextDelivery + 1 },
      ((v.called c).map fun call => Effect.called call v.batch) ++ c.ending s v.batch outcome) := by
  have hp : (c.target.start v.now v.transport (v.batch.map (·.item))).2 = .ended outcome := ended
  unfold serve
  rw [working]
  dsimp only
  rw [hp]
  cases outcome with
  | done results =>
    have hsame : c.deliver { s with
        worker := .working rest, nextDelivery := s.nextDelivery + 1 } v.batch results
        = c.deliver s v.batch results := by
      apply c.deliver_congr
      rfl
    dsimp only
    rw [hsame]
    rfl
  | failed cause => rfl
  | crashed => exact absurd rfl alive

theorem serve_crashed (c : Scheduler) {v : Serving} {rest : List (List Pending)}
    (working : s.worker = .working (v.batch :: rest)) (crashed : v.progress c = .ended .crashed) :
    c.serve v.now v.transport s = ({ s with
      worker := .gone, queue := [], nextDelivery := s.nextDelivery + 1 },
      ((v.called c).map fun call => Effect.called call v.batch) ++
        c.drop s (v.batch ++ rest.flatten ++ s.queue.flatMap Flush.items)) := by
  have hp : (c.target.start v.now v.transport (v.batch.map (·.item))).2 = .ended .crashed := crashed
  unfold serve
  rw [working]
  dsimp only
  rw [hp]
  rfl

theorem finish_cases (c : Scheduler) (i call : Nat) (outcome : Outcome Json) (s : State) :
    (s.deliveries.find? (fun d => d.id = i) = none ∧ c.finish i call outcome s = (s, [])) ∨
    ∃ d, s.deliveries.find? (fun d => d.id = i) = some d ∧
      c.finish i call outcome s = match d.exchange.resume c.target.codec call outcome with
        | .running exchange => (s.awaiting (s.deliveries.map (Delivery.update i exchange)), [])
        | .ended result =>
          (s.awaiting (s.deliveries.filter fun d => d.id ≠ i), c.ending s d.members result) := by
  unfold finish
  cases hfound : s.deliveries.find? (fun d => d.id = i) with
  | none => exact Or.inl ⟨rfl, rfl⟩
  | some d =>
    refine Or.inr ⟨d, rfl, ?_⟩
    dsimp only
    split
    · rename_i exchange hrunning
      rw [hrunning]
      rfl
    · rename_i results hdone
      rw [hdone]
      rfl
    · rename_i cause hfailed
      rw [hfailed]
      rfl
    · rename_i hcrashed
      rw [hcrashed]
      rfl

end

end Scheduler

end Coalesce
