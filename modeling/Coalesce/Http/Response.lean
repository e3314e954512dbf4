import Coalesce.Error
import Coalesce.Http.Request
import Coalesce.Json.Document
import Coalesce.Text.Marked

/-!
# What comes back over HTTP

* `Http.Response`           what the network makes of a request;
* `Http.cut?`               the last place up to a byte where a text can be cut;
* `Http.truncate`           the beginning of a long text;
* `Http.Response.result`    the JSON value in a response, or why there is none.

A status from 200 to 299 is a success.  Of any other response the beginning of the body is told, as
far as it could be read.
-/

namespace Coalesce.Http

/-- The body of a response. -/
inductive Body where
  | whole (content : List UInt8)
  /-- it broke off -/
  | cut
  | timedOut

inductive Response where
  | refused
  | timedOut
  /-- nothing came back before the connection was closed -/
  | closed
  /-- what came back is no response -/
  | unreadable
  | received (status : Nat) (body : Body)

/-- how much of a body is told, in bytes -/
def maxErrorBody : Nat := 2048

/-- The last place up to a byte where a text can be cut, sought from there downwards; none if the
search gets below the first byte. -/
def cut? (text : String) (byte : Nat) : Option text.Pos :=
  if h : String.Pos.Raw.IsValid text ⟨byte⟩ then some (text.pos ⟨byte⟩ h)
  else
    match byte with
    | 0 => none
    | byte + 1 => cut? text byte

/-- The first byte is such a place. -/
theorem isSome_cut? (text : String) (byte : Nat) : (cut? text byte).isSome = true := by
  induction byte with
  | zero =>
    have hstart : String.Pos.Raw.IsValid text ⟨0⟩ := String.Pos.Raw.isValid_zero
    rw [cut?, dif_pos hstart]
    rfl
  | succ byte ih =>
    rw [cut?]
    split
    · rfl
    · exact ih

/-- A text, or its beginning if it is long. -/
def truncate (text : String) : String :=
  if text.utf8ByteSize ≤ maxErrorBody then text
  else
    let cut := (cut? text maxErrorBody).get (isSome_cut? text maxErrorBody)
    (text.sliceTo cut).copy ++ "..."

def isSuccess (status : Nat) : Bool := 200 ≤ status && status < 300

/-- what is told of the body of a failure -/
def Body.told : Body → String
  | .whole content => truncate (Text.ofMarked content)
  | .cut | .timedOut => ""

/-- The value in a body. -/
def Body.value : Body → Except TransportError Json
  | .whole content =>
    match (Text.ofBytes? content).bind Json.ofText? with
    | some v => .ok v
    | none => .error (.decode "error decoding response body")
  | .cut =>
    .error (.other ("request or response body error: error reading a body from connection: "
      ++ "end of file before message length reached"))
  | .timedOut => .error .timedOut

/-- why sending to an address failed -/
def sendingFailed (u : Url) (cause : String) : String :=
  "error sending request for url (" ++ u.text ++ "): " ++ cause

/-- The value in the response to a request sent to this address. -/
def Response.result (u : Url) : Response → Except TransportError Json
  | .refused =>
    .error (.connect (sendingFailed u
      "error trying to connect: tcp connect error: Connection refused (os error 111)"))
  | .timedOut => .error .timedOut
  | .closed => .error (.other (sendingFailed u "connection closed before message completed"))
  | .unreadable => .error (.other (sendingFailed u "invalid HTTP version parsed"))
  | .received status body =>
    if isSuccess status then body.value else .error (.status status body.told)

end Coalesce.Http
