/-!
# Blank text

* `Text.isBlank`     text of white space only, which counts as no text at all;
* `Text.lowerAscii`, `Text.sameName`     names that differ in the case of ASCII letters.
-/

namespace Coalesce.Text

/-- white space: the controls from tab to return, the space and the wider blanks and separators -/
def isSpace (c : Char) : Bool :=
  let n := c.toNat
  (9 ≤ n && n ≤ 13) || n == 0x20 || n == 0x85 || n == 0xA0 || n == 0x1680
    || (0x2000 ≤ n && n ≤ 0x200A) || n == 0x2028 || n == 0x2029 || n == 0x202F || n == 0x205F
    || n == 0x3000

def isBlank (s : String) : Bool := s.toList.all isSpace

/-- ASCII letters in lower case, everything else as it is -/
def lowerAscii (s : String) : String := String.ofList (s.toList.map Char.toLower)

def sameName (a b : String) : Bool := lowerAscii a == lowerAscii b

end Coalesce.Text
