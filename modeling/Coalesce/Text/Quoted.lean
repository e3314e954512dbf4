import Coalesce.Text.Hidden

/-!
# Text shown in a message

* `Text.hex`      a number in lower-case hexadecimal digits;
* `Text.quoted`   a string between quotes, in which quotes, backslashes, controls and characters
                  without a shape of their own are escaped.
-/

namespace Coalesce.Text

def hex (n : Nat) : String := String.ofList (Nat.toDigits 16 n)

/-- How one character is shown between quotes. -/
def shown (c : Char) : String :=
  if c = '"' then "\\\""
  else if c = '\\' then "\\\\"
  else if c = '\n' then "\\n"
  else if c = '\r' then "\\r"
  else if c = '\t' then "\\t"
  else if c.toNat = 0 then "\\0"
  else if c.toNat < 32 || c.toNat = 127 || (127 < c.toNat && isHidden c) then
    "\\u\x7b" ++ hex c.toNat ++ "\x7d"
  else String.singleton c

def quoted (s : String) : String := "\"" ++ String.join (s.toList.map shown) ++ "\""

end Coalesce.Text
