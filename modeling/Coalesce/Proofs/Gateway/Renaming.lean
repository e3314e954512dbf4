import Coalesce.Proofs.Gateway.Leaving
import Coalesce.Proofs.Scheduler.Renaming

/-!
# A lane under renamed tokens

* `Lane.log`           the events of a lane, each with its effects;
* `Lane.step_retoken`  a step with renamed tokens is the step, with renamed tokens, whether the
                       target batches or not;
* `Lane.log_retoken`   and so is a run.
-/

namespace Coalesce

section
variable (ρ : Nat → Nat)

def Solo.retoken (s : Solo) : Solo := { s with request := s.request.retoken ρ }

namespace Lane

def retoken (l : Lane) : Lane := ⟨l.scheduler.retoken ρ, l.solos.map (Solo.retoken ρ)⟩

def Event.retoken : Event → Event
  | .execute now transport p => .execute now transport (p.retoken ρ)
  | .scheduled e => .scheduled (e.retoken ρ)
  | e => e

/-- The one comes to the same as the other, with renamed tokens. -/
def Renamed (x y : Lane × List Effect) : Prop :=
  y = (x.1.retoken ρ, x.2.map (Effect.retoken ρ))

/-! ## requests sent alone -/

theorem conclude_retoken (ticket : Nat) (outcome : Outcome (List Json)) :
    (conclude ticket outcome).retoken ρ = conclude ticket outcome := by
  cases outcome <;> rfl

theorem sendAlone_retoken (t : Target) (now : Int) (transport : Transport) (p : Pending)
    (l : Lane) : Renamed ρ (l.sendAlone t now transport p)
      ((l.retoken ρ).sendAlone t now transport (p.retoken ρ)) := by
  have hstart : t.start now transport [(p.retoken ρ).item] = t.start now transport [p.item] :=
    t.start_retoken ρ now transport [p.item]
  have hcalled : (t.start now transport [p.item]).1.map (fun call => Effect.called call [p.retoken ρ])
      = ((t.start now transport [p.item]).1.map fun call => Effect.called call [p]).map
          (Effect.retoken ρ) := Scheduler.called_retoken ρ _ [p]
  unfold sendAlone
  rw [hstart]
  dsimp only
  rw [hcalled]
  unfold Renamed
  cases (t.start now transport [p.item]).2 with
  | running exchange =>
    unfold retoken
    rw [List.map_append]
    rfl
  | ended outcome =>
    rw [List.map_append, List.map_singleton, conclude_retoken]
    rfl

theorem solos_apart_retoken (l : Lane) (ticket : Nat) :
    ((l.retoken ρ).solos.filter fun s => s.request.ticket ≠ ticket)
      = (l.solos.filter fun s => s.request.ticket ≠ ticket).map (Solo.retoken ρ) :=
  List.filter_map ..

theorem resume_retoken (t : Target) (ticket call : Nat) (outcome : Outcome Json) (l : Lane) :
    Renamed ρ (l.resume t ticket call outcome) ((l.retoken ρ).resume t ticket call outcome) := by
  have hfind : (l.retoken ρ).solos.find? (fun s => s.request.ticket = ticket)
      = (l.solos.find? fun s => s.request.ticket = ticket).map (Solo.retoken ρ) := List.find?_map ..
  unfold resume Renamed
  rw [hfind, solos_apart_retoken]
  cases l.solos.find? fun s => s.request.ticket = ticket with
  | none => rfl
  | some solo =>
    have hexchange : (solo.retoken ρ).exchange = solo.exchange := rfl
    rw [Option.map_some]
    dsimp only
    rw [hexchange]
    cases solo.exchange.resume t.codec call outcome with
    | running exchange =>
      unfold retoken
      rw [List.map_append]
      rfl
    | ended result =>
      rw [List.map_singleton, conclude_retoken]
      rfl

/-! ## steps and runs -/

variable {ρ} (inj : Function.Injective ρ)

include inj

theorem schedule_retoken (r : Route) (e : Scheduler.Event) (l : Lane) :
    Renamed ρ (l.schedule r e) ((l.retoken ρ).schedule r (e.retoken ρ)) := by
  cases r with
  | alone t => rfl
  | batched c =>
    exact congrArg (fun x : Scheduler.State × List Effect => ((l.retoken ρ).withScheduler x.1, x.2))
      (c.step_retoken l.scheduler inj e)

theorem step_retoken (r : Route) (l : Lane) (e : Event) :
    Renamed ρ (l.step r e) ((l.retoken ρ).step r (e.retoken ρ)) := by
  cases e with
  | execute now transport p =>
    cases r with
    | alone t => exact sendAlone_retoken ρ t now transport p l
    | batched c =>
      show Renamed ρ (if p.item.isSubscription then _ else _)
        (if p.item.isSubscription then _ else _)
      split
      · exact sendAlone_retoken ρ c.target now transport p l
      · exact schedule_retoken inj (.batched c) (.submit p) l
  | resume ticket call outcome => exact resume_retoken ρ r.target ticket call outcome l
  | leave ticket =>
    let fewer : Lane := { l with solos := l.solos.filter fun s => s.request.ticket ≠ ticket }
    have hfewer : { l.retoken ρ with
        solos := (l.retoken ρ).solos.filter fun s => s.request.ticket ≠ ticket }
        = fewer.retoken ρ := by
      rw [solos_apart_retoken]
      rfl
    show Renamed ρ (fewer.schedule r (.leave ticket)) (schedule r (.leave ticket) _)
    rw [hfewer]
    exact schedule_retoken inj r (.leave ticket) fewer
  | scheduled e => exact schedule_retoken inj r e l

omit inj

/-- every event with its effects -/
def log (r : Route) (l : Lane) : List Event → List (Event × List Effect)
  | [] => []
  | e :: rest => (e, (l.step r e).2) :: log r (l.step r e).1 rest

theorem log_effects (r : Route) (l : Lane) (es : List Event) :
    (l.log r es).flatMap (·.2) = (run r l es).2 := by
  induction es generalizing l with
  | nil => rfl
  | cons e rest ih =>
    rw [log, List.flatMap_cons, ih]
    rfl

theorem log_events (r : Route) (l : Lane) (es : List Event) : (l.log r es).map (·.1) = es := by
  induction es generalizing l with
  | nil => rfl
  | cons e rest ih => rw [log, List.map_cons, ih]

def Entry.retoken (ρ : Nat → Nat) (x : Event × List Effect) : Event × List Effect :=
  (x.1.retoken ρ, x.2.map (Effect.retoken ρ))

include inj

theorem log_retoken (r : Route) (l : Lane) (es : List Event) :
    (l.retoken ρ).log r (es.map (Event.retoken ρ)) = (l.log r es).map (Entry.retoken ρ) := by
  induction es generalizing l with
  | nil => rfl
  | cons e rest ih =>
    have hstep : (l.retoken ρ).step r (e.retoken ρ) = _ := step_retoken inj r l e
    rw [List.map_cons, log, log, List.map_cons, hstep, ih]
    rfl

end Lane

end

end Coalesce
