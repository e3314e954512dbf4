import Coalesce.Number.Word
import Coalesce.Options.Wire
import Coalesce.Text.Blank
import Coalesce.Duration
import Coalesce.Error

/-!
# Configurations

* `TargetConfig`           a target: its name, its address, and how it is batched, if at all;
* `Config`                 all targets, and what holds for all of them;
* `Config.validate`        the first thing that is wrong with a configuration;
* `Config.resolveBatching` the settings of a target, or its options refused in strict mode.
-/

namespace Coalesce

/-- A target to which requests are sent. -/
structure TargetConfig where
  name : String
  url : String
  timeoutMillis : Option Nat := none
  /-- every request is sent on its own when absent -/
  batching : Option Options := none
  deriving DecidableEq, Inhabited

namespace TargetConfig

/-- the longest time that fits a configuration -/
def maxMillis : Nat := Word.unsignedMax

/-- sets the timeout in whole milliseconds, as far as they fit -/
def withTimeout (t : TargetConfig) (timeout : Duration) : TargetConfig :=
  { t with timeoutMillis := some (min timeout.millis maxMillis) }

def timeout (t : TargetConfig) : Option Duration := t.timeoutMillis.map Duration.ofMillis

end TargetConfig

structure Config where
  /-- milliseconds kept back from every deadline -/
  padding : Int := 5
  /-- whether options out of their bounds are refused -/
  strict : Bool := false
  targets : List TargetConfig := []
  deriving DecidableEq, Inhabited

namespace Config

/-- The first fault of targets, which are counted from `index`; `urlFault` says why a text is no
address, `names` are the names before. -/
def validateTargets (urlFault : String → Option String) (index : Nat) (names : List String) :
    List TargetConfig → Except Error Unit
  | [] => .ok ()
  | t :: rest =>
    if Text.isBlank t.name then .error (.configuration (.blankName index))
    else if t.name ∈ names then .error (.configuration (.duplicateName index t.name))
    else
      match urlFault t.url with
      | some reason => .error (.configuration (.badUrl index t.name reason))
      | none => validateTargets urlFault (index + 1) (t.name :: names) rest

/-- The first fault of a configuration. -/
def validate (urlFault : String → Option String) (c : Config) : Except Error Unit :=
  if c.padding < 0 then .error (.configuration .negativePadding)
  else validateTargets urlFault 0 [] c.targets

/-- The settings of a target that batches. -/
def resolveBatching (c : Config) (t : TargetConfig) : Except Error (Option Settings) :=
  match t.batching with
  | none => .ok none
  | some options =>
    if c.strict then
      match options.resolveStrict with
      | .ok settings => .ok (some settings)
      | .error rejected => .error (.configuration (.outOfRange (some t.name) rejected))
    else .ok (some options.settings)

end Config

end Coalesce
