import Coalesce.Header.Comparable
import Coalesce.Header.Sha256

/-!
# Digests of headers

* `HeaderDigest.preimage`    the bytes that stand for a header list: every name, value and number of
                             values is preceded by its length, so no two lists share them;
* `HeaderDigest.of`          the hash of these bytes, for any hash;
* `HeaderDigest.sha256`      the hash that is used.
-/

namespace Coalesce

/-- A hash of a header list. -/
structure HeaderDigest where
  bytes : List UInt8
  deriving DecidableEq, Inhabited

namespace HeaderDigest

/-- a number in eight bytes, highest first -/
def word (n : Nat) : List UInt8 := Sha256.bigEndian 8 n

/-- a text behind its length -/
def framed (s : String) : List UInt8 :=
  let bytes := s.toUTF8.toList
  word bytes.length ++ bytes

/-- the bytes that stand for one header -/
def header (h : String × List String) : List UInt8 :=
  framed h.1 ++ word h.2.length ++ h.2.flatMap framed

def preimage (headers : Headers) : List UInt8 := headers.flatMap header

/-- The digest under some hash. -/
def of (hash : List UInt8 → List UInt8) (headers : Headers) : HeaderDigest :=
  ⟨hash (preimage headers)⟩

def sha256 (headers : Headers) : HeaderDigest := of Sha256.hash headers

/-- a byte as two hexadecimal digits -/
def byteText (b : UInt8) : String :=
  String.ofList [Nat.digitChar (b.toNat / 16), Nat.digitChar (b.toNat % 16)]

def text (d : HeaderDigest) : String := String.join (d.bytes.map byteText)

/-- how a digest is shown in messages -/
def describe (d : HeaderDigest) : String := "HeaderDigest(" ++ d.text ++ ")"

end HeaderDigest

end Coalesce
