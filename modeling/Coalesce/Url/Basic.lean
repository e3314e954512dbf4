import Coalesce.Text.Utf8

/-!
# Addresses

* `Url`          an address in its parts;
* `Url.text`     the address as one text;
* `UrlError`     why a text is no address.
-/

namespace Coalesce

inductive UrlError where
  | noScheme
  | emptyHost
  | badPort
  | badIpv4
  | badIpv6
  | badDomain
  | badHostCharacter
  deriving DecidableEq

def UrlError.text : UrlError → String
  | .noScheme => "relative URL without a base"
  | .emptyHost => "empty host"
  | .badPort => "invalid port number"
  | .badIpv4 => "invalid IPv4 address"
  | .badIpv6 => "invalid IPv6 address"
  | .badDomain => "invalid international domain name"
  | .badHostCharacter => "invalid domain character"

/-- A host; the numbers of the fourth and sixth protocol have 32 bits, and eight times 16 bits. -/
inductive Host where
  | name (text : String)
  | ipv4 (address : Nat)
  | ipv6 (pieces : List Nat)
  deriving DecidableEq

/-- A path: a text without structure, or segments behind slashes. -/
inductive UrlPath where
  | opaqueText (text : String)
  | segments (segments : List String)
  deriving DecidableEq

structure Url where
  scheme : String
  username : String := ""
  password : String := ""
  host : Option Host := none
  port : Option Nat := none
  path : UrlPath := .segments []
  query : Option String := none
  fragment : Option String := none
  deriving DecidableEq

/-! ## hosts as text -/

namespace Host

def ipv4Text (address : Nat) : String :=
  String.intercalate "." ([24, 16, 8, 0].map fun s => toString (address / Nat.pow 2 s % 256))

/-- The zeros at the beginning. -/
def leadingZeros : List Nat → Nat
  | 0 :: rest => leadingZeros rest + 1
  | _ => 0

/-- Position and length of the first longest run of zeros. -/
def zeroRun (pieces : List Nat) : Nat × Nat :=
  (List.range pieces.length).foldl (fun best i =>
    let n := leadingZeros (pieces.drop i)
    if best.2 < n then (i, n) else best) (0, 0)

def pieceText (n : Nat) : String := String.ofList (Nat.toDigits 16 n)

/-- Pieces in hexadecimal, the first longest run of two zeros or more left out. -/
def ipv6Text (pieces : List Nat) : String :=
  let texts (ps : List Nat) : String := String.intercalate ":" (ps.map pieceText)
  let (start, length) := zeroRun pieces
  if length < 2 then texts pieces
  else texts (pieces.take start) ++ "::" ++ texts (pieces.drop (start + length))

def text : Host → String
  | .name s => s
  | .ipv4 a => ipv4Text a
  | .ipv6 ps => "[" ++ ipv6Text ps ++ "]"

end Host

namespace Url

def schemePorts : List (String × Nat) :=
  [("http", 80), ("https", 443), ("ws", 80), ("wss", 443), ("ftp", 21)]

/-- schemes whose addresses have a host and a path of segments -/
def isSpecial (scheme : String) : Bool :=
  (schemePorts.lookup scheme).isSome || scheme == "file"

def defaultPort (scheme : String) : Option Nat := schemePorts.lookup scheme

/-- the port to connect to -/
def effectivePort (u : Url) : Option Nat := u.port.orElse fun _ => defaultPort u.scheme

def pathText (u : Url) : String :=
  match u.path with
  | .opaqueText s => s
  | .segments ss => String.join (ss.map fun s => "/" ++ s)

/-- user name and password before the host -/
def credentialsText (u : Url) : String :=
  let password := if u.password.isEmpty then "" else ":" ++ u.password
  if u.username.isEmpty && u.password.isEmpty then "" else u.username ++ password ++ "@"

/-- path and query -/
def target (u : Url) : String :=
  u.pathText ++ (match u.query with | some q => "?" ++ q | none => "")

/-- host and port -/
def authority (u : Url) : String :=
  match u.host with
  | none => ""
  | some h => h.text ++ (match u.port with | some p => ":" ++ toString p | none => "")

def text (u : Url) : String :=
  u.scheme ++ ":"
    ++ (if u.host.isSome then "//" ++ u.credentialsText ++ u.authority else "")
    ++ u.target ++ (match u.fragment with | some f => "#" ++ f | none => "")

end Url

end Coalesce
