import Coalesce.Scheduler

/-!
# Gateways

* `Gateway`          targets by name, each with requests batched or sent alone;
* `Mergers`          the mergers at hand, for all targets or for one;
* `Gateway.build`    the gateway of a configuration, with the notices given on the way;
* `Builder`          what a gateway is going to be built from, and targets that are added to it.

The first fault of the configuration is the one reported; targets are built in their order.
-/

namespace Coalesce

/-- How requests reach a target. -/
inductive Route where
  | batched (scheduler : Scheduler)
  | alone (target : Target)

structure Gateway where
  routes : List (String × Route)

structure Mergers where
  usual : Option Merger := none
  special : List (String × Merger) := []

/-- the merger of a target: its own, or the usual one -/
def Mergers.find? (m : Mergers) (name : String) : Option Merger :=
  (m.special.lookup name).orElse fun _ => m.usual

namespace Route

def target : Route → Target
  | .batched s => s.target
  | .alone t => t

def settings? : Route → Option Settings
  | .batched s => some s.settings
  | .alone _ => none

/-- The codec of a target's settings. -/
def codec (mergers : Mergers) (name : String) (style : Style) : Except Error Codec :=
  match Codec.ofStyle style (mergers.find? name) with
  | .ok codec => .ok codec
  | .error _ => .error (.configuration (.mergerMissing (some name)))

/-- The route to a target. -/
def build (c : Config) (mergers : Mergers) (t : TargetConfig) :
    List Notice × Except Error Route :=
  let clamped : List Notice :=
    match t.batching with
    | some options => if c.strict then [] else options.outOfRange.map .clamped
    | none => []
  match c.resolveBatching t with
  | .error e => (clamped, .error e)
  | .ok none => (clamped, .ok (.alone (.ofConfig t .plain c.padding)))
  | .ok (some settings) =>
    match codec mergers t.name settings.style with
    | .error e => (clamped, .error e)
    | .ok codec =>
      (clamped ++ (if settings.strategy.needsOptIn then [.mixesCallers t.name] else []),
        .ok (.batched ⟨.ofConfig t codec c.padding, settings⟩))

/-- The routes to targets in order, up to the first that cannot be built. -/
def buildAll (c : Config) (mergers : Mergers) :
    List TargetConfig → List Notice × Except Error (List (String × Route))
  | [] => ([], .ok [])
  | t :: rest =>
    match build c mergers t with
    | (notices, .error e) => (notices, .error e)
    | (notices, .ok route) =>
      let (more, routes) := buildAll c mergers rest
      (notices ++ more, routes.map ((t.name, route) :: ·))

end Route

namespace Gateway

/-- The gateway of a configuration; `urlFault` says why a text is no address. -/
def build (urlFault : String → Option String) (c : Config) (mergers : Mergers) :
    List Notice × Except Error Gateway :=
  match c.validate urlFault with
  | .error e => ([], .error e)
  | .ok () =>
    let (notices, routes) := Route.buildAll c mergers c.targets
    (notices, routes.map Gateway.mk)

def route? (g : Gateway) (name : String) : Option Route := g.routes.lookup name

end Gateway

/-- What a gateway is going to be built from. -/
structure Builder where
  config : Config := {}
  mergers : Mergers := {}

namespace Builder

/-- adds a target behind those of the configuration -/
def withTarget (b : Builder) (t : TargetConfig) : Builder :=
  { b with config := { b.config with targets := b.config.targets ++ [t] } }

def build (urlFault : String → Option String) (b : Builder) : List Notice × Except Error Gateway :=
  Gateway.build urlFault b.config b.mergers

end Builder

end Coalesce
