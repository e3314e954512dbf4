import Coalesce.Dispatch.Exchange

/-!
# Scripted answers

* `Script`               what a call comes to, and after how many milliseconds;
* `Script.echo`          the answer to a body that repeats its queries, in the shape of the body;
* `Script.transport`     calls answered by a list of scripts in order.
-/

namespace Coalesce

/-- What a scripted call comes to. -/
inductive Reply where
  | echo
  | value (response : Json)
  | fails (cause : Error)
  | crashes

structure Script where
  delay : Nat := 0
  reply : Reply := .echo

namespace Script

/-- the answer to one request -/
def echoOf (request : Json) : Json :=
  .object [("data", .object [("echo", (request.member? "query").getD .null)])]

def echo : Json → Json
  | .array requests => .array (requests.map echoOf)
  | body =>
    match body.member? "requests" with
    | some (.array requests) =>
      .object [("results", .array (requests.map fun r => .object [("result", echoOf r)]))]
    | _ => echoOf body

def outcome (s : Script) (body : Json) : Outcome Json :=
  match s.reply with
  | .echo => .done (echo body)
  | .value response => .done response
  | .fails cause => .failed cause
  | .crashes => .crashed

/-- the script of a call; calls beyond the last one are answered at once -/
def nth (scripts : List Script) (index : Nat) : Script := scripts[index]?.getD {}

def transport (scripts : List Script) : Transport where
  reply index call :=
    let s := nth scripts index
    if s.delay = 0 then some (s.outcome call.body) else none

end Script

end Coalesce
