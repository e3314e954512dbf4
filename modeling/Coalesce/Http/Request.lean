import Coalesce.Header.Comparable
import Coalesce.Text.Base64
import Coalesce.Url.Parse

/-!
# Requests over HTTP

* `Http.Request`          a request as it goes out: address, headers in order, and body;
* `Http.Request.build`    the request for a call: what the client computes itself is not forwarded,
                          and the identifier of the call comes last;
* `Http.BuildFault`       why there is no such request.

A user name in the address becomes a header and is left out of the address.
-/

namespace Coalesce.Http

inductive BuildFault where
  | badUrl (cause : UrlError)
  | badScheme (url : Url)
  | badHeaderName
  | badHeaderValue
  deriving DecidableEq

def BuildFault.text : BuildFault → String
  | .badUrl cause => "builder error: " ++ cause.text
  | .badScheme url => "builder error for url (" ++ url.text ++ "): URL scheme is not allowed"
  | .badHeaderName => "builder error: invalid HTTP header name"
  | .badHeaderValue => "builder error: failed to parse header value"

/-- A request as it goes out; names of headers are in lower case. -/
structure Request where
  url : Url
  headers : List (String × String)
  body : String

/-- headers that the client computes itself -/
def computedHeaders : List String :=
  ["host", "connection", "content-length", "content-type", "transfer-encoding", "accept-encoding",
   "keep-alive", "upgrade"]

def isForwarded (name : String) : Bool := !computedHeaders.contains (Text.lowerAscii name)

/-- the header that identifies a call -/
def callIdHeader : String := "x-batch-call-id"

def accepted : String := "application/graphql-response+json, application/json"

/-! ## headers -/

def isNameChar (c : Char) : Bool :=
  c.isAlphanum || "!#$%&'*+-.^_|~".toList.contains c || c.toNat = 0x60

/-- the longest name of a header -/
def maxNameLength : Nat := 65535

def isName (name : String) : Bool :=
  !name.isEmpty && name.length ≤ maxNameLength && name.toList.all isNameChar

/-- Controls other than the tab are not allowed. -/
def isValue (value : String) : Bool :=
  value.toList.all fun c => c = '\t' || (0x20 ≤ c.toNat && c.toNat ≠ 0x7F)

/-- One header of a request. -/
def header (name value : String) : Except BuildFault (String × String) :=
  if !isName name then .error .badHeaderName
  else if !isValue value then .error .badHeaderValue
  else .ok (Text.lowerAscii name, value)

/-- The forwarded headers, a line for every value. -/
def forwarded (headers : Headers) : Except BuildFault (List (String × String)) :=
  ((headers.filter fun h => isForwarded h.1).flatMap fun h => h.2.map fun v => (h.1, v)).mapM
    fun h => header h.1 h.2

/-! ## user names -/

/-- the header for a user name and a password -/
def basic (user password : String) : String :=
  "Basic " ++ String.ofList (Text.base64 (Text.bytes (user ++ ":" ++ password)))

def decoded? (s : String) : Option String := Text.ofBytes? (Percent.decode s.toList)

/-- Takes user name and password out of an address, unless they are no text. -/
def withoutUser (u : Url) : Url × List (String × String) :=
  let password := if u.password.isEmpty then none else decoded? u.password
  match decoded? u.username, password with
  | none, _ | some "", none => (u, [])
  | some user, password =>
    ({ u with username := "", password := "" },
      [("authorization", basic user (password.getD ""))])

/-! ## requests -/

def hasHost (u : Url) : Bool := u.host.any (· ≠ .name "")

/-- The address to send to, before its scheme is looked at. -/
def addressOf (text : String) : Except BuildFault Url :=
  match Url.parse text with
  | .error cause => .error (.badUrl cause)
  | .ok u => if hasHost u then .ok u else .error (.badScheme u)

namespace Request

def build (url : String) (headers : Headers) (body : Json) (callId : String) :
    Except BuildFault Request := do
  let address ← addressOf url
  let (address, user) := withoutUser address
  let more ← forwarded headers
  if address.scheme = "http" ∨ address.scheme = "https" then
    return ⟨address,
      user ++ [("content-type", "application/json"), ("accept", accepted)] ++ more
        ++ [(callIdHeader, callId)],
      body.compact⟩
  else .error (.badScheme address)

/-- adds a header unless there is one of that name -/
def orHeader (r : Request) (name value : String) : Request :=
  if r.headers.any fun h => h.1 = name then r
  else { r with headers := r.headers ++ [(name, value)] }

/-- What stands in the first line: path and query, or the whole address for a proxy. -/
def target (r : Request) (proxied : Bool) : String :=
  if proxied then { r.url with fragment := none }.text else r.url.target

def line (r : Request) (proxied : Bool) : String := "POST " ++ r.target proxied ++ " HTTP/1.1"

end Request

end Coalesce.Http
