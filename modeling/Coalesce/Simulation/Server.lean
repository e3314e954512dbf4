import Coalesce.Http.Response
import Coalesce.Http.Settings

/-!
# A server that answers once

* `Server`          a server at one address, and what it does with a request;
* `Server.send`     what becomes of a call: the request that the server sees, and the result.

Every other port of its host refuses connections.
-/

namespace Coalesce

/-- When a server stops answering. -/
inductive Stall where
  | never
  | before
  | after
  deriving DecidableEq

structure Server where
  host : Host
  port : Nat
  status : Nat := 200
  body : List UInt8 := []
  /-- how many bytes more it announces than it sends -/
  missing : Nat := 0
  stall : Stall := .never
  hangsUp : Bool := false

/-- What becomes of a call. -/
structure Sent where
  /-- the request, and its first line -/
  seen : Option (String × Http.Request)
  result : Except TransportError Json

namespace Server

/-- whether it listens at an address -/
def isAt (s : Server) (u : Url) : Bool := u.host = some s.host && u.effectivePort = some s.port

/-- responses that have no body, whatever the server sends -/
def bodiless (status : Nat) : Bool := status = 101 || status = 204 || status = 304

/-- what is not yet a response; another one follows -/
def isInterim (status : Nat) : Bool := 100 ≤ status && status < 200 && status ≠ 101

/-- Blanks around the value of a header do not belong to it. -/
def headerValue (value : String) : String :=
  let blank (c : Char) : Bool := c = ' ' || c = '\t'
  String.ofList ((value.toList.dropWhile blank).reverse.dropWhile blank).reverse

/-- The request as the server reads it. -/
def read (r : Http.Request) : Http.Request :=
  { r with headers := r.headers.map fun h => (h.1, headerValue h.2) }

/-- What comes back from the server. -/
def response (s : Server) : Http.Response :=
  if s.hangsUp then .closed
  else if s.stall = .before then .timedOut
  else if isInterim s.status then
    if s.stall = .after then .timedOut
    else if (s.body.dropWhile fun b => b = 10 || b = 13).isEmpty then .closed
    else .unreadable
  else if bodiless s.status then .received s.status (.whole [])
  else if s.stall = .after then .received s.status .timedOut
  else if 0 < s.missing then .received s.status .cut
  else .received s.status (.whole s.body)

/-- What becomes of a request with its time limit. -/
def exchange (s : Server) (settings : Http.Settings) (limit : Option Duration)
    (r : Http.Request) : Sent :=
  let r := settings.prepared r
  let destination := (settings.proxy.map Http.Proxy.url).getD r.url
  if limit.any fun d => d.nanos = 0 then ⟨none, .error .timedOut⟩
  else if !s.isAt destination then ⟨none, Http.Response.refused.result r.url⟩
  else
    let seen := if s.stall = .before then none else some (r.line settings.proxy.isSome, read r)
    ⟨seen, s.response.result r.url⟩

def send (s : Server) (settings : Http.Settings) (url : String) (headers : Headers) (body : Json)
    (limit : Option Duration) (callId : String) : Sent :=
  match Http.Request.build url headers body callId with
  | .error fault => ⟨none, .error (.other fault.text)⟩
  | .ok r => s.exchange settings (settings.timeoutFor limit) r

end Server

end Coalesce
