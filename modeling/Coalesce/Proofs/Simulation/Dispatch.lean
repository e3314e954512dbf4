import Coalesce.Proofs.Gateway.Clock
import Coalesce.Proofs.Gateway.Lanes
import Coalesce.Simulation.World

/-!
# Dispatching comes to an end

* `World.backlog_take`, `World.backlog_serve`
                             what is left to dispatch gets less with every event;
* `World.dispatch_induct`    what every event of it keeps is kept by dispatching;
* `World.dispatch_rests`     so dispatching ends, and nothing is left at its target.

A window is cut into no more batches than it has requests, and none of them is cut again.
-/

namespace Coalesce

namespace Scheduler

theorem batches_length_le (c : Scheduler) (live : List Pending) :
    (c.batches live).length ≤ live.length := by
  have hflat : ∀ bs : List (List Pending), (∀ b ∈ bs, b ≠ []) → bs.length ≤ bs.flatten.length := by
    intro bs hsome
    induction bs with
    | nil => exact Nat.le_refl _
    | cons b rest ih =>
      have hrest := ih fun b hb => hsome b (List.mem_cons_of_mem _ hb)
      have hb : 0 < b.length := List.length_pos_iff.mpr (hsome b List.mem_cons_self)
      rw [List.flatten_cons, List.length_append, List.length_cons]
      omega
  rw [← (c.batches_perm live).length_eq]
  exact hflat _ fun b hb => c.batches_nonempty hb

/-- Taking and serving change nothing when there is nothing to do. -/
theorem State.Rests.step {c : Scheduler} {s : State} (h : s.Rests) {e : Event}
    (dispatches : ∃ now, e = .take now ∨ ∃ transport, e = .serve now transport) :
    (c.step s e).1 = s := by
  obtain ⟨hqueue, hbatches⟩ := h
  obtain ⟨now, rfl | ⟨transport, rfl⟩⟩ := dispatches
  · refine congrArg Prod.fst (c.take_idle now fun f queue _ hnext => ?_)
    rw [hqueue] at hnext
    cases hnext
  · show (c.serve now transport s).1 = s
    unfold serve
    split
    · rename_i members rest hworking
      rw [hworking] at hbatches
      cases hbatches
    · rfl

end Scheduler

namespace World

open Scheduler (State)

/-! ## what is left to dispatch -/

theorem backlog_working {s : State} {batches : List (List Pending)}
    (working : s.worker = .working batches) :
    backlog s = batches.length + s.queue.length + (s.queue.flatMap Flush.items).length := by
  unfold backlog
  rw [working]

theorem backlog_gone {s : State} (gone : s.worker = .gone) :
    backlog s = s.queue.length + (s.queue.flatMap Flush.items).length := by
  unfold backlog
  rw [gone]
  dsimp only
  rw [Nat.zero_add]

theorem rests_of_backlog {s : State} (none : backlog s = 0) : s.Rests := by
  cases hw : s.worker with
  | working batches =>
    rw [backlog_working hw] at none
    refine ⟨List.length_eq_zero_iff.mp (by omega), ?_⟩
    rw [hw]
    show batches = []
    exact List.length_eq_zero_iff.mp (by omega)
  | gone =>
    rw [backlog_gone hw] at none
    refine ⟨List.length_eq_zero_iff.mp (by omega), ?_⟩
    rw [hw]
    rfl

section
variable {c : Scheduler} {s : State}

theorem backlog_take (now : Int) {f : Flush} {queue : List Flush} (working : s.worker = .working [])
    (next : s.queue = f :: queue) : backlog (c.step s (.take now)).1 < backlog s := by
  have hold : backlog s
      = 0 + (queue.length + 1) + (f.items.length + (queue.flatMap Flush.items).length) := by
    rw [backlog_working working, next, List.flatMap_cons, List.length_append]
    rfl
  show backlog (c.take now s).1 < backlog s
  rw [c.take_next now working next]
  split
  · have hnew : backlog { s with queue }
        = 0 + queue.length + (queue.flatMap Flush.items).length :=
      backlog_working (s := { s with queue }) working
    rw [hold, hnew]
    omega
  · have hnew : backlog { s with queue, worker := .working (c.batches (c.sift now s f.items).1) }
        = (c.batches (c.sift now s f.items).1).length + queue.length
          + (queue.flatMap Flush.items).length := backlog_working rfl
    have hbatches := c.batches_length_le (c.sift now s f.items).1
    have hlive := (c.sift_sublist now s f.items).length_le
    rw [hold, hnew]
    omega

theorem backlog_serve (now : Int) (transport : Transport) {members : List Pending}
    {rest : List (List Pending)} (working : s.worker = .working (members :: rest)) :
    backlog (c.step s (.serve now transport)).1 < backlog s := by
  have hold := backlog_working working
  rw [List.length_cons] at hold
  let v : Scheduler.Serving := ⟨now, transport, members⟩
  have serves : ∀ s' : State, s'.worker = .working rest → s'.queue = s.queue →
      backlog s' < backlog s := by
    intro s' hworker hqueue
    rw [hold, backlog_working hworker, hqueue]
    omega
  show backlog (c.serve v.now v.transport s).1 < backlog s
  cases hp : v.progress c with
  | running exchange =>
    rw [c.serve_running (v := v) working hp]
    exact serves _ rfl rfl
  | ended outcome =>
    by_cases hcrashed : outcome = .crashed
    · subst hcrashed
      rw [c.serve_crashed (v := v) working hp, hold, backlog_gone rfl]
      show 0 < _
      omega
    · rw [c.serve_ended (v := v) working hcrashed hp]
      exact serves _ rfl rfl

end

/-! ## events -/

section
variable {w : World} {name : String} {r : Route}

theorem apply_lane (found : w.gateway.route? name = some r) (destination : Destination)
    (e : Lane.Event) :
    (w.apply name destination e).1.state.lane name = ((w.state.lane name).step r e).1 := by
  show (w.gateway.step w.state ⟨name, e⟩).1.lane name = _
  rw [Gateway.step_found found]
  exact Gateway.State.lane_withLane _ _ _

theorem apply_lane_other {other : String} (h : other ≠ name) (destination : Destination)
    (e : Lane.Event) :
    (w.apply other destination e).1.state.lane name = w.state.lane name :=
  Gateway.step_other w.gateway w.state h

theorem apply_scheduled {c : Scheduler} (found : w.gateway.route? name = some (.batched c))
    (destination : Destination) (e : Scheduler.Event) :
    ((w.apply name destination (.scheduled e)).1.state.lane name).scheduler
      = (c.step (w.state.lane name).scheduler e).1 := by
  rw [apply_lane found]
  rfl

/-- What dispatching is at its target, at the time of day. -/
def Dispatches (w : World) (e : Lane.Event) : Prop :=
  e = .scheduled (.take w.now) ∨ ∃ transport, e = .scheduled (.serve w.now transport)

/-- What every event of it keeps is kept by dispatching. -/
theorem dispatch_induct {P : World → List Record → Prop} {name : String}
    (each : ∀ (w : World) (seen : List Record) (destination : Destination) (e : Lane.Event),
      w.Dispatches e → P w seen →
      P (w.apply name destination e).1 (seen ++ (w.apply name destination e).2))
    (fuel : Nat) {w : World} {seen : List Record} (h : P w seen) :
    P (dispatch name fuel w).1 (seen ++ (dispatch name fuel w).2) := by
  induction fuel generalizing w seen with
  | zero =>
    show P w (seen ++ [])
    rwa [List.append_nil]
  | succ fuel ih =>
    unfold dispatch
    dsimp only
    split
    · rw [← List.append_assoc]
      exact ih (each w seen _ _ (.inl rfl) h)
    · rw [← List.append_assoc]
      exact ih (each w seen _ _ (.inr ⟨_, rfl⟩) h)
    · rwa [List.append_nil]

theorem dispatchAll_induct {P : World → List Record → Prop}
    (each : ∀ (name : String) (w : World) (seen : List Record) (destination : Destination)
      (e : Lane.Event), w.Dispatches e → P w seen →
      P (w.apply name destination e).1 (seen ++ (w.apply name destination e).2))
    (names : List String) {w : World} (seen : List Record) (h : P w seen) :
    P (w.dispatchAll names).1 (seen ++ (w.dispatchAll names).2) := by
  induction names generalizing w seen with
  | nil =>
    show P w (seen ++ [])
    rwa [List.append_nil]
  | cons name rest ih =>
    show P _ (seen ++ (_ ++ _))
    rw [← List.append_assoc]
    exact ih _ (dispatch_induct (each name) _ h)

end

/-! ## the end -/

section
variable {w : World} {name : String} {c : Scheduler}

/-- Dispatching ends with nothing left, in as many events as there is to dispatch. -/
theorem dispatch_rests (found : w.gateway.route? name = some (.batched c)) {fuel : Nat}
    (enough : backlog (w.state.lane name).scheduler ≤ fuel)
    (orderly : (w.state.lane name).scheduler.worker = .gone →
      (w.state.lane name).scheduler.queue = []) :
    ((dispatch name fuel w).1.state.lane name).scheduler.Rests := by
  induction fuel generalizing w with
  | zero => exact rests_of_backlog (Nat.le_zero.mp enough)
  | succ fuel ih =>
    have onward : ∀ (destination : Destination) (e : Scheduler.Event),
        backlog (c.step (w.state.lane name).scheduler e).1
          < backlog (w.state.lane name).scheduler →
        ((dispatch name fuel (w.apply name destination (.scheduled e)).1).1.state.lane
          name).scheduler.Rests := by
      intro destination e hless
      have hnext := apply_scheduled found destination e
      refine ih found ?_ ?_
      · rw [hnext]
        omega
      · rw [hnext]
        exact (c.step_change _ e).gone_queue orderly
    unfold dispatch
    dsimp only
    split
    · rename_i f queue hworking hnext
      exact onward _ _ (backlog_take w.now hworking hnext)
    · rename_i members rest hworking
      exact onward _ _ (backlog_serve w.now _ hworking)
    · rename_i hserved htaken
      show (w.state.lane name).scheduler.Rests
      cases hw : (w.state.lane name).scheduler.worker with
      | gone =>
        refine ⟨orderly hw, ?_⟩
        rw [hw]
        rfl
      | working batches =>
        have hnone : batches = [] := by
          cases batches with
          | nil => rfl
          | cons members rest => exact absurd hw (hserved members rest)
        subst hnone
        refine ⟨?_, ?_⟩
        · cases hq : (w.state.lane name).scheduler.queue with
          | nil => rfl
          | cons f queue => exact absurd hq (htaken f queue hw)
        · rw [hw]
          rfl

end

end World

end Coalesce
