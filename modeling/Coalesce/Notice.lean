import Coalesce.Error
import Coalesce.Duration
import Coalesce.Number.Word
import Coalesce.Options.Wire

/-!
# Notices

* `Notice`           something worth telling an operator;
* `Notice.toJson`    level, message and fields of a notice.
-/

namespace Coalesce

/-- What made a window flush. -/
inductive Trigger where
  | size
  | timer
  | manual
  deriving DecidableEq

def Trigger.name : Trigger → String
  | .size => "size"
  | .timer => "timer"
  | .manual => "manual"

inductive Notice where
  | clamped (change : Adjustment)
  | mixesCallers (target : String)
  | calling (target style : String) (items : Nat) (timeout : Option Duration)
  | flushed (target : String) (strategy : Strategy) (trigger : Trigger) (items batches : Nat)
  | batchFailed (target : String) (items : Nat) (cause : Error)
  /-- nobody is left to dispatch a window -/
  | windowLost (target : String) (items : Nat)
  | ignored (setting : String)
  deriving DecidableEq

namespace Notice

inductive Level where
  | debug
  | info
  | warn
  deriving DecidableEq

def Level.name : Level → String
  | .debug => "debug"
  | .info => "info"
  | .warn => "warn"

def level : Notice → Level
  | .clamped _ | .batchFailed _ _ _ | .windowLost _ _ | .ignored _ => .warn
  | .mixesCallers _ => .info
  | .calling _ _ _ _ | .flushed _ _ _ _ _ => .debug

def message : Notice → String
  | .clamped _ => "batching option clamped"
  | .mixesCallers _ =>
    "indiscriminate batching enabled; requests from different callers share upstream calls"
  | .calling _ _ _ _ => "sending upstream call"
  | .flushed _ _ _ _ _ => "flushing batch window"
  | .batchFailed _ _ _ => "sub-batch failed"
  | .windowLost _ _ => "dispatch task gone, dropping flushed window"
  | .ignored setting => "ignoring invalid " ++ setting

/-- the target that a notice is about -/
def target? : Notice → Option String
  | .clamped _ | .ignored _ => none
  | .mixesCallers t | .calling t _ _ _ | .flushed t _ _ _ _ | .batchFailed t _ _
  | .windowLost t _ => some t

/-- the particulars -/
def fields : Notice → List (String × Json)
  | .clamped a =>
    [("field", .string a.field.name), ("requested", .nat a.requested),
      ("applied", .nat a.applied)]
  | .mixesCallers _ | .ignored _ => []
  | .calling _ style items timeout =>
    [("style", .string style), ("items", .nat items)]
      ++ (timeout.map fun t => ("timeout_ms", Json.nat (min t.millis Word.unsignedMax))).toList
  | .flushed _ strategy trigger items batches =>
    [("strategy", .string strategy.name), ("trigger", .string trigger.name),
      ("items", .nat items), ("sub_batches", .nat batches)]
  | .batchFailed _ items cause => [("items", .nat items), ("error", .string cause.message)]
  | .windowLost _ items => [("items", .nat items)]

def members (n : Notice) : List (String × Json) :=
  [("level", .string n.level.name), ("message", .string n.message)]
    ++ (n.target?.map fun t => ("upstream", Json.string t)).toList ++ n.fields

def toJson (n : Notice) : Json := .ofMembers n.members

end Notice

end Coalesce
