/-!
# Batching options and the settings they resolve to

* `Strategy`, `Style`    who may share a call, and how a shared call is written;
* `Options`              what an operator asks for: every number may be absent;
* `Settings`             what is applied: every number lies within its bounds;
* `Adjustment`           a number that was changed on the way, and why.

A number is the requested one or its default, brought into its bounds.  A target that batches
indiscriminately waits for exactly as many requests as fit one call.
-/

namespace Coalesce

inductive Strategy where
  | byCaller
  | byHeaders
  | indiscriminate
  deriving DecidableEq, Inhabited

namespace Strategy

def name : Strategy → String
  | .byCaller => "by-inbound-request"
  | .byHeaders => "by-upstream-headers"
  | .indiscriminate => "indiscriminate"

/-- all accepted names, those of one strategy together and its own name first -/
def names : List (String × Strategy) :=
  [("by-inbound-request", .byCaller), ("byInboundRequest", .byCaller),
   ("by_inbound_request", .byCaller), ("by-upstream-headers", .byHeaders),
   ("byUpstreamHeaders", .byHeaders), ("by_upstream_headers", .byHeaders),
   ("indiscriminate", .indiscriminate)]

def ofName? (name : String) : Option Strategy := names.lookup name

/-- mixing callers has to be asked for by an operator who knows it -/
def needsOptIn : Strategy → Bool
  | .indiscriminate => true
  | _ => false

end Strategy

inductive Style where
  | legacy
  | single
  | array
  deriving DecidableEq

instance : Inhabited Style := ⟨.array⟩

namespace Style

def name : Style → String
  | .legacy => "legacy"
  | .single => "single"
  | .array => "array"

def names : List (String × Style) :=
  [("legacy", .legacy), ("single", .single), ("array", .array)]

def ofName? (name : String) : Option Style := names.lookup name

end Style

/-- When a window is flushed, as asked for. -/
structure WaitOptions where
  queries : Option Nat := none
  millis : Option Nat := none
  deriving DecidableEq, Inhabited

structure Options where
  strategy : Strategy
  style : Style := .array
  maxSize : Option Nat := none
  wait : WaitOptions := {}
  deriving DecidableEq, Inhabited

structure Settings where
  strategy : Strategy
  style : Style
  maxSize : Nat
  waitQueries : Nat
  waitMillis : Nat
  deriving DecidableEq, Inhabited

/-- Inclusive bounds of a number, and its default. -/
structure Bounds where
  low : Nat
  high : Nat
  usual : Nat

namespace Bounds

def maxSize : Bounds := ⟨2, 100, 50⟩
def waitQueries : Bounds := ⟨2, 200, 100⟩
def waitMillis : Bounds := ⟨0, 100, 20⟩

end Bounds

/-- Why a number was changed. -/
inductive Reason where
  | belowMinimum
  | aboveMaximum
  | forcedByStrategy
  deriving DecidableEq

/-- The numbers of the options. -/
inductive Field where
  | maxSize
  | waitQueries
  | waitMillis
  deriving DecidableEq

def Field.name : Field → String
  | .maxSize => "max_size"
  | .waitQueries => "wait.queries"
  | .waitMillis => "wait.millis"

structure Adjustment where
  field : Field
  requested : Nat
  applied : Nat
  reason : Reason
  deriving DecidableEq

namespace Reason

def name : Reason → String
  | .belowMinimum => "below_minimum"
  | .aboveMaximum => "above_maximum"
  | .forcedByStrategy => "forced_by_strategy"

def describe : Reason → String
  | .belowMinimum => "below minimum"
  | .aboveMaximum => "above maximum"
  | .forcedByStrategy => "forced by indiscriminate strategy"

end Reason

namespace Adjustment

/-- the operator's number lay outside its bounds -/
def isOutOfRange (a : Adjustment) : Bool := a.reason != .forcedByStrategy

def describe (a : Adjustment) : String :=
  a.field.name ++ ": " ++ toString a.requested ++ " -> " ++ toString a.applied ++ " ("
    ++ a.reason.describe ++ ")"

end Adjustment

/-- a number brought into its bounds -/
def Bounds.clamp (b : Bounds) (n : Nat) : Nat := max b.low (min n b.high)

/-- The applied number of a field, and the change if there is one. -/
def Bounds.resolve (b : Bounds) (field : Field) (requested : Option Nat) :
    Nat × List Adjustment :=
  let value := requested.getD b.usual
  let applied := b.clamp value
  (applied,
    if applied = value then []
    else [⟨field, value, applied, if value < b.low then .belowMinimum else .aboveMaximum⟩])

namespace Options

/-- The settings for the options, with all changes in the order of the fields; a change that the
strategy forces comes last. -/
def resolve (o : Options) : Settings × List Adjustment :=
  let (size, sizeChange) := Bounds.maxSize.resolve .maxSize o.maxSize
  let (queries, queriesChange) := Bounds.waitQueries.resolve .waitQueries o.wait.queries
  let (millis, millisChange) := Bounds.waitMillis.resolve .waitMillis o.wait.millis
  let forced := o.strategy = .indiscriminate ∧ queries ≠ size
  (⟨o.strategy, o.style, size, if forced then size else queries, millis⟩,
    sizeChange ++ queriesChange ++ millisChange ++
      if forced ∧ o.wait.queries.isSome then [⟨.waitQueries, queries, size, .forcedByStrategy⟩]
      else [])

/-- the settings alone -/
def settings (o : Options) : Settings := o.resolve.1

/-- the operator's numbers that lie outside their bounds -/
def outOfRange (o : Options) : List Adjustment := o.resolve.2.filter (·.isOutOfRange)

/-- The settings, or what would have to be changed to stay within bounds. -/
def resolveStrict (o : Options) : Except (List Adjustment) Settings :=
  if o.outOfRange.isEmpty then .ok o.settings else .error o.outOfRange

end Options

/-- The options that ask for exactly these settings. -/
def Settings.toOptions (s : Settings) : Options :=
  ⟨s.strategy, s.style, some s.maxSize, ⟨some s.waitQueries, some s.waitMillis⟩⟩

end Coalesce
