/-!
# Bytes in base 64

`Text.base64` writes three bytes as four characters; what is missing from the last three is shown
by `=`.
-/

namespace Coalesce.Text

/-- the character of a number below 64 -/
def base64Digit (n : Nat) : Char :=
  if n < 26 then Char.ofNat (65 + n)
  else if n < 52 then Char.ofNat (97 + (n - 26))
  else if n < 62 then Char.ofNat (48 + (n - 52))
  else if n = 62 then '+'
  else '/'

/-- the first characters for three bytes -/
def base64Group (count a b c : Nat) : List Char :=
  let n := a * 65536 + b * 256 + c
  ([18, 12, 6, 0].map fun s => base64Digit (n / Nat.pow 2 s % 64)).take count

def base64 : List UInt8 → List Char
  | [] => []
  | [a] => base64Group 2 a.toNat 0 0 ++ ['=', '=']
  | [a, b] => base64Group 3 a.toNat b.toNat 0 ++ ['=']
  | a :: b :: c :: rest => base64Group 4 a.toNat b.toNat c.toNat ++ base64 rest

end Coalesce.Text
