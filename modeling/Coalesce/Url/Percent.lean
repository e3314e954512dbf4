import Coalesce.Json.Value
import Coalesce.Text.Utf8

/-!
# Percent encoding

* `Percent.encode`      characters of a set, and all beyond ASCII, as `%` and two digits a byte;
* `Percent.decode`      the bytes of a text in which `%` and two digits stand for one byte;
* `Percent.path` and its like      what each part of an address does not show as it is.
-/

namespace Coalesce.Percent

/-- controls and what lies beyond ASCII -/
def control (c : Char) : Bool := c.toNat < 0x20 || 0x7F ≤ c.toNat

def fragment (c : Char) : Bool :=
  control c || c = ' ' || c = '"' || c = '<' || c = '>' || c.toNat = 0x60

def path (c : Char) : Bool :=
  fragment c || c = '#' || c = '?' || c = '{' || c = '}'

def userInfo (c : Char) : Bool :=
  path c || c = '/' || c = ':' || c = ';' || c = '=' || c = '@' || c = '[' || c = '\\' || c = ']'
    || c = '^' || c = '|'

def query (c : Char) : Bool :=
  control c || c = ' ' || c = '"' || c = '#' || c = '<' || c = '>'

def specialQuery (c : Char) : Bool := query c || c = '\''

def upperHexDigit (n : Nat) : Char := if n < 10 then Char.ofNat (48 + n) else Char.ofNat (55 + n)

def encodeChar (set : Char → Bool) (c : Char) : List Char :=
  if set c then
    (String.utf8EncodeChar c).flatMap fun b =>
      ['%', upperHexDigit (b.toNat / 16), upperHexDigit (b.toNat % 16)]
  else [c]

def encode (set : Char → Bool) (s : List Char) : String :=
  String.ofList (s.flatMap (encodeChar set))

def digit? (c : Char) : Option Nat :=
  if c.isDigit then some (c.toNat - 48)
  else if 'a' ≤ c ∧ c ≤ 'f' then some (c.toNat - 87)
  else if 'A' ≤ c ∧ c ≤ 'F' then some (c.toNat - 55)
  else none

def decode : List Char → List UInt8
  | [] => []
  | '%' :: a :: b :: rest =>
    match digit? a, digit? b with
    | some x, some y => UInt8.ofNat (x * 16 + y) :: decode rest
    | _, _ => 0x25 :: decode (a :: b :: rest)
  | c :: rest => String.utf8EncodeChar c ++ decode rest

end Coalesce.Percent
