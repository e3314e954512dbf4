import Coalesce.Proofs.Deadline
import Coalesce.Proofs.Gateway.Build
import Coalesce.Proofs.Gateway.Lane

/-!
# Calls end before their deadlines

* `Call.InTime`              what the timeout of a call promises to the requests of its batch;
* `Target.start_in_time`     calls that are started keep this promise;
* `Lane.Event.clock?`        the reading of the clock that comes with an event;
* `Lane.serving?`            what a lane sends when an event happens: a request alone, or a batch;
* `Lane.calls_step`          the calls that are started then are those for it;
* `Lane.step_calls`          every call is started for one batch, at the reading of its event;
* `Gateway.calls_in_time`    so every call of a gateway keeps the promise, with the timeout and the
                             reserve of the configuration.

The calls for a subscription, or at a target that does not batch, are those for a batch of one.
-/

namespace Coalesce

/-! ## one target -/

/-- What the timeout of a call promises, when it was started at some reading of the clock for some
requests: it leaves the reserve to each deadline, it is not longer than the longest time, and it is
absent only if nothing bounds it. -/
structure Call.InTime (call : Call) (longest : Option Duration) (now padding : Int)
    (items : List Item) : Prop where
  within : ∀ i ∈ items, ∀ d : Int, i.deadline = some d → 0 ≤ d - now - padding ∧
    ∃ limit, call.timeout = some limit ∧ (now + padding) * 1000000 + limit.nanos ≤ d * 1000000
  bounded : ∀ m, longest = some m → ∃ limit, call.timeout = some limit ∧ limit.nanos ≤ m.nanos
  absent : call.timeout = none → longest = none ∧ ∀ i ∈ items, i.deadline = none

theorem earliestDeadline_le {items : List Item} {i : Item} (hi : i ∈ items) {d : Int}
    (hd : i.deadline = some d) : ∃ m : Int, earliestDeadline items = some m ∧ m ≤ d := by
  have hmem : some d ∈ items.map Item.deadline := List.mem_map.mpr ⟨i, hi, hd⟩
  cases hm : earliestDeadline items with
  | none => exact absurd (Deadline.aggregate_eq_none.mp hm _ hmem) (by simp)
  | some m => exact ⟨m, rfl, (Deadline.aggregate_some hm).2 d hmem⟩

theorem Target.start_in_time {t : Target} (reserve : 0 ≤ t.padding) {now : Int}
    {transport : Transport} {items : List Item} {call : Call}
    (h : call ∈ (t.start now transport items).1) :
    call.InTime t.timeout now t.padding items := by
  have htimeout := t.start_timeout h
  refine ⟨fun i hi d hd => ?_, fun m hm => ?_, fun hnone => ?_⟩
  · obtain ⟨m, hm, hle⟩ := earliestDeadline_le hi hd
    rw [hm] at htimeout
    obtain ⟨hleft, limit, hlimit, hends⟩ := callTimeout_within reserve htimeout
    exact ⟨by omega, limit, hlimit, by omega⟩
  · rw [hm] at htimeout
    exact callTimeout_longest htimeout
  · rw [hnone] at htimeout
    obtain ⟨hlongest, hdeadline⟩ := callTimeout_none htimeout
    exact ⟨hlongest, fun i hi =>
      Deadline.aggregate_eq_none.mp hdeadline _ (List.mem_map_of_mem hi)⟩

/-! ## the calls of an event -/

namespace Lane

/-- the reading of the clock that comes with an event -/
def Event.clock? : Event → Option Int
  | .execute now _ _ | .scheduled (.take now) | .scheduled (.serve now _) => some now
  | _ => none

theorem calls_sendAlone (t : Target) (now : Int) (transport : Transport) (p : Pending) (l : Lane) :
    calls (l.sendAlone t now transport p).2
      = (t.start now transport [p.item]).1.map fun call => (call, [p]) := by
  unfold sendAlone
  dsimp only
  split
  · exact calls_called _ _
  · rw [calls_append, calls_called, calls_conclude, List.append_nil]

theorem calls_resume (t : Target) (ticket call : Nat) (outcome : Outcome Json) (l : Lane) :
    calls (l.resume t ticket call outcome).2 = [] := by
  unfold resume
  split
  · rfl
  · dsimp only
    split
    · rfl
    · exact calls_conclude _ _

/-- What is sent when an event happens: a request alone, or the next batch of the dispatcher. -/
def serving? (r : Route) (l : Lane) : Event → Option Scheduler.Serving
  | .execute now transport p =>
    match r with
    | .batched _ => if p.item.isSubscription then some ⟨now, transport, [p]⟩ else none
    | .alone _ => some ⟨now, transport, [p]⟩
  | .scheduled e =>
    match r with
    | .batched _ => Scheduler.Moment.serving? ⟨l.scheduler, e⟩
    | .alone _ => none
  | _ => none

theorem calls_schedule (c : Scheduler) (l : Lane) (e : Scheduler.Event) :
    calls (l.schedule (.batched c) e).2
      = (Scheduler.Moment.serving? ⟨l.scheduler, e⟩).toList.flatMap c.target.callsFor :=
  (c.step_change l.scheduler e).calls_eq

theorem calls_step (r : Route) (l : Lane) (e : Event) :
    calls (l.step r e).2 = (l.serving? r e).toList.flatMap r.target.callsFor := by
  have alone : ∀ (t : Target) now transport p, calls (l.sendAlone t now transport p).2
      = (some (⟨now, transport, [p]⟩ : Scheduler.Serving)).toList.flatMap t.callsFor := by
    intro t now transport p
    rw [calls_sendAlone, Option.toList_some, List.flatMap_singleton]
    rfl
  cases e with
  | execute now transport p =>
    cases r with
    | alone t => exact alone t now transport p
    | batched c =>
      unfold step serving?
      dsimp only
      split
      · exact alone c.target now transport p
      · exact calls_schedule c l (.submit p)
  | resume ticket call outcome => exact calls_resume r.target ticket call outcome l
  | leave ticket =>
    cases r with
    | alone t => rfl
    | batched c => rfl
  | scheduled e =>
    cases r with
    | alone t => rfl
    | batched c => exact calls_schedule c l e

theorem serving?_clock {r : Route} {l : Lane} {e : Event} {v : Scheduler.Serving}
    (h : l.serving? r e = some v) : e.clock? = some v.now := by
  cases e with
  | execute now transport p =>
    unfold serving? at h
    dsimp only at h
    split at h
    · split at h
      · cases h
        rfl
      · cases h
    · cases h
      rfl
  | resume ticket call outcome => cases h
  | leave ticket => cases h
  | scheduled e =>
    cases r with
    | alone t => cases h
    | batched c =>
      obtain ⟨rfl, _⟩ : e = .serve v.now v.transport ∧ _ := Scheduler.serving?_eq_some h
      rfl

/-- Calls are started for one batch, at the reading of the clock that comes with the event. -/
theorem step_calls {r : Route} {l : Lane} {e : Event} {x : Call × List Pending}
    (h : x ∈ calls (l.step r e).2) :
    ∃ now transport, e.clock? = some now ∧
      x.1 ∈ (r.target.start now transport (x.2.map (·.item))).1 := by
  rw [calls_step] at h
  obtain ⟨v, hv, hx⟩ := List.mem_flatMap.mp h
  obtain ⟨call, hcall, rfl⟩ := List.mem_map.mp hx
  exact ⟨v.now, v.transport, serving?_clock (Option.mem_toList.mp hv), hcall⟩

end Lane

/-! ## gateways -/

/-- **Calls end before their deadlines.**  Whatever happened at a gateway that was built from a
configuration: a call that the next event starts is started at the reading of the clock that comes
with the event, and its timeout leaves the reserve to the deadline of every request of its batch,
in exact arithmetic; it is no longer than the timeout of the target, and absent only if neither the
target nor any request has a bound.  In particular no call is started for a batch with a request
for which nothing is left. -/
theorem Gateway.calls_in_time (urlFault : String → Option String) (config : Config)
    (mergers : Mergers) {notices : List Notice} {g : Gateway}
    (built : Gateway.build urlFault config mergers = (notices, .ok g)) (before : List Event)
    (e : Event) :
    ∀ x ∈ calls (g.step (g.run {} before).1 e).2, (∀ p ∈ carried x, p ∈ x.2) ∧
      ∃ t now, config.targets.find? (fun t => t.name = e.target) = some t ∧
        e.event.clock? = some now ∧
        x.1.InTime t.timeout now config.padding (x.2.map (·.item)) := by
  intro x hx
  obtain ⟨reserve, hroute⟩ := build_route built
  unfold Gateway.step at hx
  split at hx
  · rename_i route hfound
    obtain ⟨t, codec, ht, htarget⟩ := hroute _ _ hfound
    obtain ⟨now, transport, hclock, hcall⟩ := Lane.step_calls hx
    rw [htarget] at hcall
    refine ⟨fun p hp => ?_, t, now, ht, hclock, Target.start_in_time reserve hcall⟩
    obtain ⟨i, _, hi⟩ := List.mem_filterMap.mp hp
    exact List.mem_of_getElem? hi
  · split at hx <;> exact absurd hx List.not_mem_nil

/-- one call for two requests of one caller, whose deadline an earlier one overrides for the first;
the target would wait for half a minute -/
theorem Gateway.calls_in_time_override :
    let target : TargetConfig :=
      { name := "accounts", url := "http://accounts", timeoutMillis := some 30000
        batching := some { strategy := .byCaller, wait := { queries := some 2 } } }
    let config : Config := { targets := [target] }
    let g : Gateway := ⟨[("accounts", .batched ⟨.ofConfig target .array 5,
      ⟨.byCaller, .array, 50, 2, 20⟩⟩)]⟩
    let p (ticket : Nat) (override : Option Deadline) : Pending :=
      ⟨ticket, { request := default, caller := ⟨[], some 9000, ⟨1, [], default⟩⟩, override }, 0⟩
    let before : List Event := [⟨"accounts", .execute 990 .silent (p 0 (some 2000))⟩,
      ⟨"accounts", .execute 990 .silent (p 1 none)⟩, ⟨"accounts", .scheduled (.take 1000)⟩]
    let e : Event := ⟨"accounts", .scheduled (.serve 1000 .silent)⟩
    Gateway.build (fun _ => none) config {} = ([], .ok g) ∧
      ∃ x, calls (g.step (g.run {} before).1 e).2 = [x] ∧
        x.1.timeout = some (Duration.ofMillis 995) ∧
        x.1.InTime target.timeout 1000 5 (x.2.map (·.item)) := by
  intro target config g p before e
  have built : Gateway.build (fun _ => none) config {} = ([], .ok g) := by
    simp only [config, g, target]
    rfl
  have one : ∃ x, calls (g.step (g.run {} before).1 e).2 = [x] ∧
      x.1.timeout = some (Duration.ofMillis 995) := ⟨_, rfl, by decide⟩
  obtain ⟨x, hx, htimeout⟩ := one
  have hmem : x ∈ calls (g.step (g.run {} before).1 e).2 := by
    rw [hx]
    exact List.mem_singleton_self x
  obtain ⟨_, t, now, ht, hclock, htime⟩ :=
    calls_in_time (fun _ => none) config {} built before e x hmem
  cases ht
  cases hclock
  exact ⟨built, x, hx, htimeout, htime⟩

end Coalesce
