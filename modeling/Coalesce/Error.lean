import Coalesce.Decode.Fault
import Coalesce.Options.Settings

/-!
# What can go wrong

* `Error`            one of six kinds, each with its cause;
* `ErrorContext`     where it went wrong, as far as that is known;
* `Error.message`    the wording of the whole error.

Causes are values: what a caller is told is put into words at the very end, in one place.
-/

namespace Coalesce

structure ErrorContext where
  field : Option String := none
  details : Option String := none
  source : Option String := none
  deriving DecidableEq, Inhabited

/-- What a configuration has wrong with it. -/
inductive ConfigurationError where
  /-- numbers outside their bounds, in strict mode; of a target, when one is named -/
  | outOfRange (target : Option String) (rejected : List Adjustment)
  | negativePadding
  | blankName (index : Nat)
  | duplicateName (index : Nat) (name : String)
  | badUrl (index : Nat) (name reason : String)
  | unreadable (path reason : String)
  /-- the single style cannot do without a merger; of a target, when one is named -/
  | mergerMissing (target : Option String)
  | stated (text : String) (context : ErrorContext)
  deriving DecidableEq

/-- What a running gateway has to give up. -/
inductive RuntimeError where
  | unknownTarget (name : String)
  /-- a target that does not batch carries one request a call -/
  | tooManyRequests (count : Nat)
  /-- a merged document answers for a request that does not exist or is answered already -/
  | mergeRepeats (member : Nat)
  | mergeMisses (covered total : Nat)
  | layoutRepeats (index : Nat)
  | layoutMisses
  | noResult
  /-- the reply will never come -/
  | replyDropped (target : String)
  | stated (text : String) (context : ErrorContext)
  deriving DecidableEq

/-- Why a response cannot be taken apart. -/
inductive ResponseFault where
  | notArray
  | notObject
  | noResults
  | entryNotObject (index : Nat)
  | entryWithoutResult (index : Nat)
  | stated (text : String)
  deriving DecidableEq

/-- Why a call brought nothing back. -/
inductive TransportError where
  | status (code : Nat) (body : String)
  | timedOut
  | connect (text : String)
  | decode (text : String)
  | other (text : String)
  deriving DecidableEq

/-- What can go wrong. -/
inductive Error where
  | configuration (cause : ConfigurationError)
  | timeout (deadline remaining : Int)
  /-- too few or too many results, or none that can be read -/
  | protocol (style : String) (expected actual : Nat) (fault : Option ResponseFault)
  | transport (cause : TransportError)
  | serialization (cause : Decode.Fault)
  | runtime (cause : RuntimeError)
  deriving DecidableEq

/-! ## wording -/

/-- the known parts, in brackets -/
def ErrorContext.describe (c : ErrorContext) : String :=
  let part (label : String) (text : Option String) : List String :=
    match text with
    | some t => [label ++ ": " ++ t]
    | none => []
  let parts := part "field" c.field ++ part "details" c.details ++ part "source" c.source
  if parts.isEmpty then "" else " (" ++ String.intercalate ", " parts ++ ")"

namespace ConfigurationError

def text : ConfigurationError → String
  | .outOfRange none _ => "batching options out of range"
  | .outOfRange (some name) _ => "batching options out of range for upstream '" ++ name ++ "'"
  | .negativePadding => "deadline padding must not be negative"
  | .blankName _ => "upstream name must not be empty"
  | .duplicateName _ name => "duplicate upstream name '" ++ name ++ "'"
  | .badUrl _ name _ => "invalid url for upstream '" ++ name ++ "'"
  | .unreadable path _ => "failed to read " ++ path
  | .mergerMissing none => "single batch style requires a query merger"
  | .mergerMissing (some name) => "cannot build codec for upstream '" ++ name ++ "'"
  | .stated text _ => text

/-- a field of the target with that position -/
def targetField (index : Nat) (name : String) : String :=
  "upstreams[" ++ toString index ++ "]." ++ name

def context : ConfigurationError → ErrorContext
  | .outOfRange _ rejected =>
    { details := some (String.intercalate "; " (rejected.map Adjustment.describe)),
      source := some "config_resolver" }
  | .negativePadding =>
    { field := some "deadline_padding_ms", source := some "gateway_config" }
  | .blankName i | .duplicateName i _ =>
    { field := some (targetField i "name"), source := some "gateway_config" }
  | .badUrl i _ reason =>
    { field := some (targetField i "url"), details := some reason,
      source := some "gateway_config" }
  | .unreadable _ reason => { details := some reason, source := some "gateway_config" }
  | .mergerMissing none => { source := some "style_codec" }
  | .mergerMissing (some _) =>
    { details := some ("Configuration error: " ++ (mergerMissing none).text
        ++ ErrorContext.describe { source := some "style_codec" }),
      source := some "batching_gateway" }
  | .stated _ context => context

end ConfigurationError

namespace RuntimeError

def text : RuntimeError → String
  | .unknownTarget name => "unknown upstream target '" ++ name ++ "'"
  | .tooManyRequests count => "unbatched target received " ++ toString count ++ " requests"
  | .mergeRepeats _ | .mergeMisses _ _ => "query merger produced an invalid partition"
  | .layoutRepeats _ => "batch layout is not a permutation of its input"
  | .layoutMisses => "batch layout does not cover every input position"
  | .noResult => "no result for single request"
  | .replyDropped _ => "batch dispatch ended without a reply"
  | .stated text _ => text

def context : RuntimeError → ErrorContext
  | .unknownTarget _ => { source := some "batching_gateway" }
  | .tooManyRequests _ => { source := some "style_codec" }
  | .mergeRepeats member =>
    { details := some ("member index " ++ toString member ++ " out of range or repeated"),
      source := some "single_style" }
  | .mergeMisses covered total =>
    { details := some ("merged documents cover " ++ toString covered ++ " of "
        ++ toString total ++ " requests"),
      source := some "single_style" }
  | .layoutRepeats index =>
    { details := some ("index " ++ toString index ++ " out of range or repeated"),
      source := some "order_restorer" }
  | .layoutMisses => { source := some "order_restorer" }
  | .noResult => { source := some "dispatcher" }
  | .replyDropped target => { details := some target, source := some "windowed_scheduler" }
  | .stated _ context => context

end RuntimeError

def ResponseFault.text : ResponseFault → String
  | .notArray => "response is not an array"
  | .notObject => "response is not an object"
  | .noResults => "missing \"results\" array"
  | .entryNotObject i => "results[" ++ toString i ++ "] is not an object"
  | .entryWithoutResult i => "results[" ++ toString i ++ "] has no \"result\""
  | .stated text => text

def TransportError.text : TransportError → String
  | .status code body => "upstream responded with HTTP " ++ toString code ++ ": " ++ body
  | .timedOut => "upstream call timed out"
  | .connect text => "connection failed: " ++ text
  | .decode text => "invalid response body: " ++ text
  | .other text => "transport error: " ++ text

namespace Error

/-- a response in which nothing can be read -/
def malformed (style : String) (expected : Nat) (fault : ResponseFault) : Error :=
  .protocol style expected 0 (some fault)

/-- the context, of the kinds that have one -/
def context? : Error → Option ErrorContext
  | .configuration c => some c.context
  | .runtime c => some c.context
  | _ => none

def message : Error → String
  | .configuration c => "Configuration error: " ++ c.text ++ c.context.describe
  | .timeout deadline remaining =>
    "Deadline exceeded: " ++ toString remaining ++ "ms remaining before deadline "
      ++ toString deadline
  | .protocol style expected actual fault =>
    "Protocol violation (" ++ style ++ "): expected " ++ toString expected ++ " results, got "
      ++ toString actual ++ (match fault with | some f => ": " ++ f.text | none => "")
  | .transport t => "Network transport error: " ++ t.text
  | .serialization f => "Serialization error: " ++ f.message
  | .runtime c => "Runtime error: " ++ c.text ++ c.context.describe

def isTimeout : Error → Bool
  | .timeout _ _ | .transport .timedOut => true
  | _ => false

def isProtocol : Error → Bool
  | .protocol _ _ _ _ => true
  | _ => false

def isTransport : Error → Bool
  | .transport _ => true
  | _ => false

def isConfiguration : Error → Bool
  | .configuration _ => true
  | _ => false

end Error

end Coalesce
