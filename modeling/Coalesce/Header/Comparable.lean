import Coalesce.Text.Blank

/-!
# Headers that decide who may share a call

* `Headers`                 names with their values, as forwarded: names may repeat, in any case;
* `Header.isComparable`     headers that name one request, or trace it, do not count;
* `Headers.comparable`      what is compared: names in lower case and in order, each once, with all
                            its values in the order of arrival.
-/

namespace Coalesce

abbrev Headers := List (String × List String)

namespace Header

/-- headers that differ from request to request by design -/
def perRequest : List String :=
  ["x-request-id", "request-id", "x-correlation-id", "correlation-id", "x-transaction-id",
   "x-unique-id", "x-amzn-trace-id", "x-cloud-trace-context", "content-length"]

/-- headers that carry a trace -/
def tracing : List String :=
  ["traceparent", "tracestate", "baggage", "b3", "uber-trace-id", "sentry-trace",
   "grpc-trace-bin", "x-datadog-trace-id", "x-datadog-parent-id",
   "x-datadog-sampling-priority", "x-datadog-origin"]

/-- how the names of further tracing headers begin -/
def tracingStarts : List String := ["x-b3-", "uberctx-", "ot-baggage-", "ot-tracer-"]

def startsWith (name start : String) : Bool := start.toList.isPrefixOf name.toList

/-- Whether a header takes part in the comparison, whatever the case of its name. -/
def isComparable (name : String) : Bool :=
  let name := Text.lowerAscii name
  !(perRequest.contains name || tracing.contains name || tracingStarts.any (startsWith name))

end Header

namespace Headers

/-- Adds values behind those of the same name, in the order of names. -/
def merge (name : String) (values : List String) : Headers → Headers
  | [] => [(name, values)]
  | (n, vs) :: rest =>
    if name < n then (name, values) :: (n, vs) :: rest
    else if name = n then (n, vs ++ values) :: rest
    else (n, vs) :: merge name values rest

def comparable (headers : Headers) : Headers :=
  (headers.filter fun h => Header.isComparable h.1).foldl
    (fun merged h => merge (Text.lowerAscii h.1) h.2 merged) []

/-- Adds one value, to the first entry of that name if there is one. -/
def add (name value : String) : Headers → Headers
  | [] => [(name, [value])]
  | (n, vs) :: rest =>
    if Text.sameName n name then (n, vs ++ [value]) :: rest
    else (n, vs) :: add name value rest

theorem merge_nil (name : String) (values : List String) :
    merge name values [] = [(name, values)] := rfl

theorem add_nil (name value : String) : add name value [] = [(name, [value])] := rfl

end Headers

end Coalesce
