import Coalesce.Http.Request
import Coalesce.Notice
import Coalesce.Number.Word

/-!
# Settings of the client

* `Http.Settings`                   the time a call may take, and a proxy;
* `Http.Settings.ofEnvironment`     settings from named texts; what is no number counts as absent,
                                    and a proxy that is no address is left out with a notice.
-/

namespace Coalesce.Http

/-- A proxy: where it is, and who asks. -/
structure Proxy where
  url : Url
  user : Option String
  deriving DecidableEq

namespace Proxy

/-- An address with a host; the scheme may be left out. -/
def address? (text : String) : Option Url :=
  let retry : Option Url :=
    match Url.parse ("http://" ++ text) with
    | .ok u => if hasHost u then some u else none
    | .error _ => none
  match Url.parse text with
  | .ok u => if hasHost u then some u else retry
  | .error .noScheme => retry
  | .error _ => none

/-- the header for its user, when there is a password -/
def userOf (u : Url) : Option String :=
  if u.password.isEmpty then none
  else
    some (basic (Text.ofBytes (Percent.decode u.username.toList))
      (Text.ofBytes (Percent.decode u.password.toList)))

def parse? (text : String) : Option Proxy := do
  let u ← address? text
  if u.scheme = "http" ∨ u.scheme = "https" then some ⟨u, userOf u⟩ else none

end Proxy

/-- How the client sends. -/
structure Settings where
  timeout : Option Duration := none
  proxy : Option Proxy := none

namespace Settings

/-- A natural number of 64 bits, with or without a plus sign. -/
def number? (text : String) : Option Nat :=
  let digits := match text.toList with
    | '+' :: rest => rest
    | s => s
  if digits.isEmpty ∨ !digits.all Char.isDigit then none
  else
    let n := digits.foldl (fun n d => n * 10 + (d.toNat - 48)) 0
    if n ≤ Word.unsignedMax then some n else none

def usualSeconds : Nat := 30

def ofEnvironment (vars : String → Option String) : Settings × List Notice :=
  let seconds := ((vars "GATEWAY_HTTP_TIMEOUT_SECS").bind number?).getD usualSeconds
  let timeout := some (Duration.ofMillis (seconds * 1000))
  match vars "GATEWAY_PROXY_URL" with
  | none => ({ timeout }, [])
  | some text =>
    match Proxy.parse? text with
    | some proxy => ({ timeout, proxy := some proxy }, [])
    | none => ({ timeout }, [.ignored "GATEWAY_PROXY_URL"])

/-- how long a call may take: its own limit goes first -/
def timeoutFor (s : Settings) (own : Option Duration) : Option Duration :=
  own.orElse fun _ => s.timeout

/-- The request as it is sent with these settings. -/
def prepared (s : Settings) (r : Request) : Request :=
  match s.proxy.bind Proxy.user with
  | some user => if r.url.scheme = "http" then r.orHeader "proxy-authorization" user else r
  | none => r

end Settings

end Coalesce.Http
