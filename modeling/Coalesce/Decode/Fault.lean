import Coalesce.Json.Value
import Coalesce.Text.Quoted

/-!
# What can be wrong with a document

* `Found`    what a document holds at a place where something else was asked for;
* `Fault`    why a record could not be read from a document;
* `Fault.message`    the wording.
-/

namespace Coalesce.Decode

inductive Found where
  | null
  | bool (value : Bool)
  | number (value : Number)
  | string (value : String)
  | sequence
  | map
  deriving DecidableEq

def Found.describe : Found → String
  | .null => "null"
  | .bool b => "boolean `" ++ (if b then "true" else "false") ++ "`"
  | .number (.int i) => "integer `" ++ toString i ++ "`"
  | .number (.real x) => "floating point `" ++ x.text ++ "`"
  | .string s => "string " ++ Text.quoted s
  | .sequence => "sequence"
  | .map => "map"

inductive Fault where
  /-- the text is not of its format -/
  | malformed
  | wrongType (found : Found) (expected : String)
  | outOfRange (found : Int) (expected : String)
  | missingField (name : String)
  | duplicateField (name : String)
  | unknownVariant (found : String) (known : List String)
  | tooShort (length : Nat) (expected : String)
  /-- a fault worded elsewhere -/
  | worded (text : String)
  deriving DecidableEq

def Fault.message : Fault → String
  | .malformed => "malformed document"
  | .wrongType found expected => "invalid type: " ++ found.describe ++ ", expected " ++ expected
  | .outOfRange found expected =>
    "invalid value: integer `" ++ toString found ++ "`, expected " ++ expected
  | .missingField name => "missing field `" ++ name ++ "`"
  | .duplicateField name => "duplicate field `" ++ name ++ "`"
  | .unknownVariant found known =>
    "unknown variant `" ++ found ++ "`, expected one of "
      ++ String.intercalate ", " (known.map fun k => "`" ++ k ++ "`")
  | .tooShort length expected =>
    "invalid length " ++ toString length ++ ", expected " ++ expected
  | .worded text => text

end Coalesce.Decode
