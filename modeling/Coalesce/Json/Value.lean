import Coalesce.Number.Binary64

/-!
# JSON values

* `Json`          a value: numbers are exact integers or doubles, and the members of an object are
                  kept in the order of their names, each name once;
* `Members`       the operations on such member lists;
* `Json.object`   members in any order, put in order; of a repeated name the last one counts;
* `Json.compact`  the text without blanks, `Json.pretty` the text on indented lines.

Names are compared by code points, which is the order of their bytes in UTF-8.
-/

namespace Coalesce

/-- A JSON number. -/
inductive Number where
  | int (value : Int)
  | real (value : Binary64)
  deriving DecidableEq, Inhabited

def Number.text : Number → String
  | .int i => toString i
  | .real x => x.text

/-- A JSON value. -/
inductive Json where
  | null
  | bool (value : Bool)
  | number (value : Number)
  | string (value : String)
  | array (items : List Json)
  | object (members : List (String × Json))
  deriving Inhabited

/-! ## members -/

namespace Members

variable {α : Type}

/-- Puts a member in its place; a member of that name is replaced. -/
def insert (name : String) (value : α) : List (String × α) → List (String × α)
  | [] => [(name, value)]
  | (n, v) :: rest =>
    if name < n then (name, value) :: (n, v) :: rest
    else if name = n then (name, value) :: rest
    else (n, v) :: insert name value rest

def get? (name : String) : List (String × α) → Option α
  | [] => none
  | (n, v) :: rest => if n = name then some v else get? name rest

/-- members in order, from members as they come -/
def ofList (members : List (String × α)) : List (String × α) :=
  members.foldl (fun ms m => insert m.1 m.2 ms) []

theorem insert_nil (name : String) (value : α) : insert name value [] = [(name, value)] := rfl

end Members

namespace Json

def int (i : Int) : Json := .number (.int i)

def nat (n : Nat) : Json := .number (.int n)

/-- the object with the given members, in any order -/
def ofMembers (members : List (String × Json)) : Json := .object (Members.ofList members)

def ofOption (f : α → Json) : Option α → Json
  | none => .null
  | some a => f a

/-- the value of a member, of an object that has it -/
def member? (name : String) : Json → Option Json
  | .object members => Members.get? name members
  | _ => none

/-! ## text -/

/-- the lower-case hexadecimal digit -/
def hexDigit (n : Nat) : Char :=
  if n < 10 then Char.ofNat (48 + n) else Char.ofNat (87 + n)

/-- How one character stands in a string: quotes, backslashes and controls are escaped. -/
def escapeChar (c : Char) : List Char :=
  if c = '"' then ['\\', '"']
  else if c = '\\' then ['\\', '\\']
  else if c = '\x08' then ['\\', 'b']
  else if c = '\t' then ['\\', 't']
  else if c = '\n' then ['\\', 'n']
  else if c = '\x0c' then ['\\', 'f']
  else if c = '\r' then ['\\', 'r']
  else if c.toNat < 32 then
    ['\\', 'u', '0', '0', hexDigit (c.toNat / 16), hexDigit (c.toNat % 16)]
  else [c]

def quote (s : String) : String :=
  "\"" ++ String.ofList (s.toList.flatMap escapeChar) ++ "\""

mutual

def compact : Json → String
  | .null => "null"
  | .bool b => if b then "true" else "false"
  | .number n => n.text
  | .string s => quote s
  | .array items => "[" ++ String.intercalate "," (compactItems items) ++ "]"
  | .object members => "\x7b" ++ String.intercalate "," (compactMembers members) ++ "\x7d"

def compactItems : List Json → List String
  | [] => []
  | v :: rest => compact v :: compactItems rest

def compactMembers : List (String × Json) → List String
  | [] => []
  | (n, v) :: rest => (quote n ++ ":" ++ compact v) :: compactMembers rest

end

/-- A line break and two blanks for every level. -/
def lineAt (level : Nat) : String := "\n" ++ String.ofList (List.replicate (2 * level) ' ')

mutual

/-- The text of a value on lines of its own, nested values moved in by two blanks. -/
def prettyAt (level : Nat) : Json → String
  | .null => "null"
  | .bool b => if b then "true" else "false"
  | .number n => n.text
  | .string s => quote s
  | .array [] => "[]"
  | .array (v :: rest) =>
    "[" ++ String.intercalate "," (prettyItems (level + 1) (v :: rest)) ++ lineAt level ++ "]"
  | .object [] => "\x7b\x7d"
  | .object (m :: rest) =>
    "\x7b" ++ String.intercalate "," (prettyMembers (level + 1) (m :: rest)) ++ lineAt level
      ++ "\x7d"

def prettyItems (level : Nat) : List Json → List String
  | [] => []
  | v :: rest => (lineAt level ++ prettyAt level v) :: prettyItems level rest

def prettyMembers (level : Nat) : List (String × Json) → List String
  | [] => []
  | (n, v) :: rest =>
    (lineAt level ++ quote n ++ ": " ++ prettyAt level v) :: prettyMembers level rest

end

def pretty (v : Json) : String := prettyAt 0 v

end Json

end Coalesce
