import Coalesce.Options.Settings
import Coalesce.Json.Format

/-!
# Options in documents

* `Options.read`      options from a document of any format;
* `Options.toJson`, `Settings.toJson`, `Adjustment.toJson`      the JSON values written.

Names are written in their own spelling; other spellings of a strategy, and `maxSize`, are read.
-/

namespace Coalesce

open Decode

variable {D : Type}

def Strategy.read (f : Format D) (d : D) : Except Fault Strategy :=
  f.variant Strategy.ofName? (Strategy.names.map (·.1)) d

def Style.read (f : Format D) (d : D) : Except Fault Style :=
  f.variant Style.ofName? (Style.names.map (·.1)) d

namespace WaitOptions

/-- the fields read so far -/
structure Draft where
  queries : Option (Option Nat) := none
  millis : Option (Option Nat) := none

def step (f : Format D) (w : Draft) (name : String) (d : D) : Except Fault Draft :=
  if name = "queries" then
    return { w with queries := ← once "queries" w.queries (f.optional f.unsigned d) }
  else if name = "millis" then
    return { w with millis := ← once "millis" w.millis (f.optional f.unsigned d) }
  else .ok w

def read (f : Format D) (d : D) : Except Fault WaitOptions := do
  match ← f.record "WaitOptions" d with
  | .named members =>
    let w ← members.fold (step f) {}
    return ⟨w.queries.getD none, w.millis.getD none⟩
  | .positional items =>
    let (queries, items) ← items.nextOr none (f.optional f.unsigned)
    let (millis, items) ← items.nextOr none (f.optional f.unsigned)
    items.finish ⟨queries, millis⟩

def toJson (w : WaitOptions) : Json :=
  .ofMembers [("queries", Json.ofOption .nat w.queries), ("millis", Json.ofOption .nat w.millis)]

end WaitOptions

namespace Options

/-- the fields read so far -/
structure Draft where
  strategy : Option Strategy := none
  style : Option Style := none
  maxSize : Option (Option Nat) := none
  wait : Option WaitOptions := none

def step (f : Format D) (o : Draft) (name : String) (d : D) : Except Fault Draft :=
  if name = "strategy" then
    return { o with strategy := ← once "strategy" o.strategy (Strategy.read f d) }
  else if name = "style" then
    return { o with style := ← once "style" o.style (Style.read f d) }
  else if name = "max_size" ∨ name = "maxSize" then
    return { o with maxSize := ← once "max_size" o.maxSize (f.optional f.unsigned d) }
  else if name = "wait" then
    return { o with wait := ← once "wait" o.wait (WaitOptions.read f d) }
  else .ok o

def read (f : Format D) (d : D) : Except Fault Options := do
  match ← f.record "BatchingOptions" d with
  | .named members =>
    let o ← members.fold (step f) {}
    let strategy ← required "strategy" o.strategy
    return ⟨strategy, o.style.getD .array, o.maxSize.getD none, o.wait.getD {}⟩
  | .positional items =>
    let (strategy, items) ←
      items.nextOf 0 "struct BatchingOptions with 4 elements" (Strategy.read f)
    let (style, items) ← items.nextOr .array (Style.read f)
    let (maxSize, items) ← items.nextOr none (f.optional f.unsigned)
    let (wait, items) ← items.nextOr {} (WaitOptions.read f)
    items.finish ⟨strategy, style, maxSize, wait⟩

def toJson (o : Options) : Json :=
  .ofMembers [("strategy", .string o.strategy.name), ("style", .string o.style.name),
    ("max_size", Json.ofOption .nat o.maxSize), ("wait", o.wait.toJson)]

end Options

def Settings.toJson (s : Settings) : Json :=
  .ofMembers [("strategy", .string s.strategy.name), ("style", .string s.style.name),
    ("max_size", .nat s.maxSize),
    ("wait", .ofMembers [("queries", .nat s.waitQueries), ("millis", .nat s.waitMillis)])]

def Adjustment.toJson (a : Adjustment) : Json :=
  .ofMembers [("field", .string a.field.name), ("requested", .nat a.requested),
    ("applied", .nat a.applied), ("reason", .string a.reason.name)]

end Coalesce
