import Coalesce.Caller
import Coalesce.Codec.Basic
import Coalesce.Config.Basic

/-!
# Targets

* `Target`             a target with all that is needed to call it;
* `Call`               one physical call;
* `Shipment`           the calls for requests that travel together;
* `Target.prepare`     the shipment for some requests, as long as their earliest deadline allows
                       one.

The headers sent are those of the first request.
-/

namespace Coalesce

structure Target where
  name : String
  url : String
  timeout : Option Duration
  codec : Codec
  /-- milliseconds kept back from every deadline -/
  padding : Int

structure Call where
  target : String
  body : Json
  headers : Headers
  timeout : Option Duration
  /-- the positions of the requests that it answers for -/
  members : List Nat

structure Shipment where
  headers : Headers
  timeout : Option Duration
  calls : List EncodedCall

namespace Target

/-- the target of a configuration -/
def ofConfig (config : TargetConfig) (codec : Codec) (padding : Int) : Target :=
  ⟨config.name, config.url, config.timeout, codec, padding⟩

/-- The shipment for some requests, at some reading of the clock, and in some round of the merger. -/
def prepare (t : Target) (now : Int) (round : Nat) (first : Item) (rest : List Item) :
    Outcome Shipment := do
  let deadline := earliestDeadline (first :: rest)
  let timeout ← Outcome.ofExcept (callTimeout t.timeout deadline now t.padding)
  let calls ← t.codec.encode ((first :: rest).map (·.request)) round
  return ⟨first.caller.headers, timeout, calls⟩

/-- a call of a shipment -/
def call (t : Target) (s : Shipment) (c : EncodedCall) : Call :=
  ⟨t.name, c.body, s.headers, s.timeout, c.members⟩

end Target

end Coalesce
