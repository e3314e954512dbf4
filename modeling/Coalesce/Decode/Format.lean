import Coalesce.Decode.Fault
import Coalesce.Number.Word

/-!
# Reading records from documents

* `Format D`           how a kind of document holds records, sequences and scalars;
* `Record D`           a record as written: by names, or by position;
* `Record.readNamed`   reads named members in order, one step each;
* `Items.next`         the next of the items written by position.

Records are described once, against `Format`, and are then read from every format.  A record or
sequence that breaks off has `complete = false`; the fault is reported after what stands before it.
-/

namespace Coalesce.Decode

/-- The parts of a record or sequence, and whether it was read to its end. -/
structure Parts (α : Type) where
  parts : List α
  complete : Bool

/-- A record as written. -/
inductive Record (D : Type) where
  | named (members : Parts (String × D))
  | positional (items : Parts D)

/-- How documents of type `D` hold data. -/
structure Format (D : Type) where
  record : String → D → Except Fault (Record D)
  sequence : D → Except Fault (Parts D)
  /-- a whole number between bounds, called by the given name -/
  integer : (low high : Int) → String → D → Except Fault Int
  bool : D → Except Fault Bool
  string : D → Except Fault String
  /-- none where the document says that nothing is given -/
  option : D → Option D
  variant : {α : Type} → (String → Option α) → List String → D → Except Fault α

namespace Format

variable {D : Type}

/-- a natural number of 64 bits -/
def unsigned (f : Format D) (d : D) : Except Fault Nat :=
  (f.integer 0 Word.unsignedMax "u64" d).map Int.toNat

/-- an integer of 64 bits -/
def signed (f : Format D) (d : D) : Except Fault Int :=
  f.integer Word.signedMin Word.signedMax "i64" d

def optional (f : Format D) (read : D → Except Fault α) (d : D) : Except Fault (Option α) :=
  match f.option d with
  | none => .ok none
  | some d => (read d).map some

/-- all items of a sequence -/
def listOf (f : Format D) (read : D → Except Fault α) (d : D) : Except Fault (List α) := do
  let items ← f.sequence d
  let values ← items.parts.mapM read
  if items.complete then .ok values else .error .malformed

end Format

/-- Reads named members in order, with what was read so far in `σ`. -/
def Parts.fold (step : σ → String → D → Except Fault σ) (start : σ)
    (members : Parts (String × D)) : Except Fault σ := do
  let last ← members.parts.foldlM (fun s m => step s m.1 m.2) start
  if members.complete then .ok last else .error .malformed

/-- A field that must not be there yet. -/
def once (name : String) (old : Option α) (read : Except Fault α) : Except Fault (Option α) :=
  match old with
  | some _ => .error (.duplicateField name)
  | none => read.map some

/-- a field that has to be there -/
def required (name : String) : Option α → Except Fault α
  | some a => .ok a
  | none => .error (.missingField name)

/-- The next item: none behind the last one. -/
def Parts.next (items : Parts D) : Except Fault (Option D × Parts D) :=
  match items.parts with
  | d :: rest => .ok (some d, ⟨rest, items.complete⟩)
  | [] => if items.complete then .ok (none, items) else .error .malformed

/-- The next item, read, or a default behind the last one. -/
def Parts.nextOr (items : Parts D) (absent : α) (read : D → Except Fault α) :
    Except Fault (α × Parts D) := do
  match ← items.next with
  | (some d, rest) => .ok (← read d, rest)
  | (none, rest) => .ok (absent, rest)

/-- The next item, which has to be there. -/
def Parts.nextOf (items : Parts D) (index : Nat) (expected : String)
    (read : D → Except Fault α) : Except Fault (α × Parts D) := do
  match ← items.next with
  | (some d, rest) => .ok (← read d, rest)
  | (none, _) => .error (.tooShort index expected)

/-- Nothing may follow the last field. -/
def Parts.finish (items : Parts D) (value : α) : Except Fault α :=
  if items.parts.isEmpty && items.complete then .ok value else .error .malformed

end Coalesce.Decode
