import Coalesce.Url.Basic
import Coalesce.Url.Percent
import Coalesce.Url.Punycode
import Coalesce.Text.Hidden
import Coalesce.Text.LowerCase

/-!
# Reading hosts

* `Host.ofDomain`     the host of an address with a special scheme: brackets hold a number of the
                      sixth protocol, a last part that is a number makes one of the fourth, and
                      everything else is a domain name in lower case;
* `Host.ofOpaque`     the host of any other address, kept as it is.
-/

namespace Coalesce.Host

/-! ## numbers of the fourth protocol -/

/-- One part: none when it is no number, and a number that may be far too large. -/
def ipv4Number? (s : List Char) : Option Nat :=
  let value (radix : Nat) (ds : List Char) : Option Nat :=
    ds.foldlM (fun n c => (Percent.digit? c).bind fun d =>
      if d < radix then some (n * radix + d) else none) 0
  match s with
  | [] => none
  | '0' :: 'x' :: rest => value 16 rest
  | '0' :: 'X' :: rest => value 16 rest
  | '0' :: c :: rest => value 8 (c :: rest)
  | s => value 10 s

/-- the texts between dots -/
def splitDots : List Char → List (List Char)
  | [] => [[]]
  | c :: rest =>
    if c = '.' then [] :: splitDots rest
    else match splitDots rest with
      | part :: parts => (c :: part) :: parts
      | [] => [[c]]

/-- the parts, without an empty one at the end -/
def parts (s : List Char) : List (List Char) :=
  let ps := splitDots s
  match ps.reverse with
  | [] :: rest => if rest.isEmpty then ps else rest.reverse
  | _ => ps

/-- Whether a name is to be read as a number. -/
def endsInNumber (s : List Char) : Bool :=
  match (parts s).getLast? with
  | none => false
  | some last => (!last.isEmpty && last.all Char.isDigit) || (ipv4Number? last).isSome

def ipv4? (s : List Char) : Option Nat := do
  let ps := parts s
  if 4 < ps.length then none
  else
    let ns ← ps.mapM ipv4Number?
    let last ← ns.getLast?
    let first := ns.dropLast
    if first.any (255 < ·) then none
    else if Nat.pow 256 (4 - first.length) ≤ last then none
    else some (first.zipIdx.foldl (fun total (n, i) => total + n * Nat.pow 256 (3 - i)) last)

/-! ## numbers of the sixth protocol -/

/-- up to four hexadecimal digits, their value, and the rest -/
def hexPiece : Nat → Nat → List Char → Nat × Nat × List Char
  | 0, v, s => (0, v, s)
  | _ + 1, v, [] => (0, v, [])
  | n + 1, v, c :: rest =>
    match Percent.digit? c with
    | some d =>
      let (k, v, rest) := hexPiece n (v * 16 + d) rest
      (k + 1, v, rest)
    | none => (0, v, c :: rest)

/-- Four decimal numbers up to 255 without leading zeros, as two pieces. -/
def embeddedIpv4? (s : List Char) : Option (List Nat) := do
  let ns ← (splitDots s).mapM fun p =>
    if p.isEmpty || !p.all Char.isDigit || 3 < p.length || (1 < p.length && p.head? = some '0')
    then none
    else
      let n := p.foldl (fun n c => n * 10 + (c.toNat - 48)) 0
      if n ≤ 255 then some n else none
  match ns with
  | [a, b, c, d] => some [a * 256 + b, c * 256 + d]
  | _ => none

/-- Pieces behind each other; the second part is the number of pieces before `::`, if it was
seen.  At most so many pieces are read as `fuel` says. -/
def ipv6Pieces : Nat → List Nat → Option Nat → List Char → Option (List Nat × Option Nat)
  | 0, _, _, _ => none
  | _ + 1, found, gap, [] => some (found, gap)
  | fuel + 1, found, gap, ':' :: rest =>
    if gap.isSome ∨ 8 ≤ found.length then none
    else ipv6Pieces fuel found (some found.length) rest
  | fuel + 1, found, gap, s =>
    if 8 ≤ found.length then none
    else
      let (digits, value, rest) := hexPiece 4 0 s
      match rest with
      | '.' :: _ =>
        if digits = 0 ∨ 6 < found.length then none
        else (embeddedIpv4? s).map fun ps => (found ++ ps, gap)
      | [] => some (found ++ [value], gap)
      | ':' :: rest =>
        if rest.isEmpty then none
        else ipv6Pieces fuel (found ++ [value]) gap rest
      | _ => none

def ipv6? (s : List Char) : Option (List Nat) := do
  let (found, gap) ← match s with
    | ':' :: ':' :: rest => ipv6Pieces (s.length + 2) [] (some 0) rest
    | ':' :: _ => none
    | s => ipv6Pieces (s.length + 2) [] none s
  match gap with
  | none => if found.length = 8 then some found else none
  | some before =>
    if found.length < 8 then
      some (found.take before ++ List.replicate (8 - found.length) 0 ++ found.drop before)
    else none

/-! ## names -/

/-- ASCII characters that no domain name holds -/
def forbidden (c : Char) : Bool :=
  c.toNat ≤ 0x20 || c.toNat = 0x7F || "%#/:<>?@[\\]^|".toList.contains c

/-- what a character is taken for; none for one that stands for nothing -/
def mapped? (c : Char) : Option Char :=
  let n := c.toNat
  if n = 0xAD ∨ n = 0x200B ∨ n = 0x2060 ∨ n = 0xFEFF ∨ (0xFE00 ≤ n ∧ n ≤ 0xFE0F) then none
  else if n = 0x3002 ∨ n = 0xFF0E ∨ n = 0xFF61 then some '.'
  else if 0xFF01 ≤ n ∧ n ≤ 0xFF5E then some (Char.ofNat (n - 0xFEE0)).toLower
  else some (Text.lower c)

/-- characters beyond ASCII that a label may hold: those with a shape, except for joiners and the
replacement character -/
def isLabelChar (c : Char) : Bool :=
  !Text.isUnseen c && c ≠ '\u200C' && c ≠ '\u200D' && c ≠ '\uFFFD'

/-- Whether characters make a label; it does not begin with a mark. -/
def isLabel (cs : List Char) : Bool :=
  !cs.head?.any Text.isCombining && cs.all fun c => c.toNat < 128 || isLabelChar c

/-- A label that may stand in a domain name, written in ASCII. -/
def label? (l : List Char) : Option (List Char) :=
  match l with
  | 'x' :: 'n' :: '-' :: '-' :: code =>
    if l.any fun c => 128 ≤ c.toNat then none
    else match Punycode.decode? code with
      | some cs =>
        if cs.any (fun c => 128 ≤ c.toNat) && isLabel cs && Punycode.encode cs = code then some l
        else none
      | none => none
  | l =>
    if l.all fun c => c.toNat < 128 then some l
    else if isLabel l then some ("xn--".toList ++ Punycode.encode l)
    else none

/-- A domain name in ASCII. -/
def domainToAscii? (s : List Char) : Option (List Char) := do
  let mapped := s.filterMap mapped?
  if mapped.any fun c => c.toNat < 128 && forbidden c then none
  else
    let labels ← (splitDots mapped).mapM label?
    some (['.'].intercalate labels)

/-- the text between brackets -/
def bracketed (s : List Char) : Except UrlError Host :=
  if s.getLast? = some ']' then
    match ipv6? (s.drop 1).dropLast with
    | some ps => .ok (.ipv6 ps)
    | none => .error .badIpv6
  else .error .badIpv6

def ofDomain (s : List Char) : Except UrlError Host :=
  if s.head? = some '[' then bracketed s
  else
    match (Text.ofBytes? (Percent.decode s)).bind fun t => domainToAscii? t.toList with
    | none => .error .badDomain
    | some [] => .error .emptyHost
    | some domain =>
      if endsInNumber domain then
        match ipv4? domain with
        | some a => .ok (.ipv4 a)
        | none => .error .badIpv4
      else .ok (.name (String.ofList domain))

/-- The host of an address with another scheme. -/
def ofOpaque (s : List Char) : Except UrlError Host :=
  if s.head? = some '[' then bracketed s
  else if s.any fun c => c.toNat = 0 || "\t\n\r #/:<>?@[\\]^|".toList.contains c then
    .error .badHostCharacter
  else .ok (.name (Percent.encode Percent.control s))

end Coalesce.Host
