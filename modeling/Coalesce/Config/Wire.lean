import Coalesce.Config.Basic

/-!
# Configurations in documents

* `Config.read`      a configuration from a document of any format, not validated;
* `Config.toJson`    the JSON value written.
-/

namespace Coalesce

open Decode

variable {D : Type}

namespace TargetConfig

/-- the fields read so far -/
structure Draft where
  name : Option String := none
  url : Option String := none
  timeoutMillis : Option (Option Nat) := none
  batching : Option (Option Options) := none

def step (f : Format D) (t : Draft) (name : String) (d : D) : Except Fault Draft :=
  if name = "name" then
    return { t with name := ← once "name" t.name (f.string d) }
  else if name = "url" then
    return { t with url := ← once "url" t.url (f.string d) }
  else if name = "timeout_ms" ∨ name = "timeoutMs" then do
    let millis ← once "timeout_ms" t.timeoutMillis (f.optional f.unsigned d)
    return { t with timeoutMillis := millis }
  else if name = "batching" then
    return { t with batching := ← once "batching" t.batching (f.optional (Options.read f) d) }
  else .ok t

def read (f : Format D) (d : D) : Except Fault TargetConfig := do
  match ← f.record "UpstreamConfig" d with
  | .named members =>
    let t ← members.fold (step f) {}
    let name ← required "name" t.name
    let url ← required "url" t.url
    return ⟨name, url, t.timeoutMillis.getD none, t.batching.getD none⟩
  | .positional items =>
    let expected := "struct UpstreamConfig with 4 elements"
    let (name, items) ← items.nextOf 0 expected f.string
    let (url, items) ← items.nextOf 1 expected f.string
    let (millis, items) ← items.nextOr none (f.optional f.unsigned)
    let (batching, items) ← items.nextOr none (f.optional (Options.read f))
    items.finish ⟨name, url, millis, batching⟩

def toJson (t : TargetConfig) : Json :=
  .ofMembers [("name", .string t.name), ("url", .string t.url),
    ("timeout_ms", Json.ofOption .nat t.timeoutMillis),
    ("batching", Json.ofOption Options.toJson t.batching)]

end TargetConfig

namespace Config

/-- the fields read so far -/
structure Draft where
  padding : Option Int := none
  strict : Option Bool := none
  targets : Option (List TargetConfig) := none

def step (f : Format D) (c : Draft) (name : String) (d : D) : Except Fault Draft :=
  if name = "deadline_padding_ms" ∨ name = "deadlinePaddingMs" then
    return { c with padding := ← once "deadline_padding_ms" c.padding (f.signed d) }
  else if name = "strict_batching" ∨ name = "strictBatching" then
    return { c with strict := ← once "strict_batching" c.strict (f.bool d) }
  else if name = "upstreams" then
    return { c with targets := ← once "upstreams" c.targets (f.listOf (TargetConfig.read f) d) }
  else .ok c

/-- The configuration in which nothing is said. -/
def usual : Config := {}

def read (f : Format D) (d : D) : Except Fault Config := do
  match ← f.record "GatewayConfig" d with
  | .named members =>
    let c ← members.fold (step f) {}
    return ⟨c.padding.getD usual.padding, c.strict.getD usual.strict,
      c.targets.getD usual.targets⟩
  | .positional items =>
    let (padding, items) ← items.nextOr usual.padding f.signed
    let (strict, items) ← items.nextOr usual.strict f.bool
    let (targets, items) ← items.nextOr usual.targets (f.listOf (TargetConfig.read f))
    items.finish ⟨padding, strict, targets⟩

def toJson (c : Config) : Json :=
  .ofMembers [("deadline_padding_ms", .int c.padding), ("strict_batching", .bool c.strict),
    ("upstreams", .array (c.targets.map TargetConfig.toJson))]

end Config

end Coalesce
