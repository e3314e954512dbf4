import Coalesce.Duration
import Coalesce.Error
import Coalesce.Number.Word

/-!
# Deadlines

* `Deadline`              a moment by which an answer is wanted, in milliseconds since the epoch;
* `Deadline.earliest`     the earlier of two, where none is no bound;
* `Deadline.aggregate`    the earliest of a list;
* `callTimeout`           how long a call may take: what the deadline leaves after a reserve, and
                          no more than a maximum.

Moments are 64-bit, and arithmetic stops at the ends of that range instead of leaving it.
-/

namespace Coalesce

abbrev Deadline := Int

namespace Deadline

/-- The reading of a clock that counts nanoseconds: nothing before the epoch. -/
def clockMillis (nanos : Int) : Int := if nanos < 0 then 0 else Word.clamp (nanos / 1000000)

/-- the moment at which a budget is used up -/
def after (now : Int) (budget : Duration) : Deadline :=
  Word.clamp (now + Word.clamp budget.millis)

/-- the earlier of two deadlines -/
def earliest : Option Deadline → Option Deadline → Option Deadline
  | some a, some b => some (min a b)
  | some d, none | none, some d => some d
  | none, none => none

/-- the earliest of all deadlines -/
def aggregate (deadlines : List (Option Deadline)) : Option Deadline :=
  deadlines.foldl earliest none

theorem aggregate_nil : aggregate [] = none := rfl

end Deadline

/-- What is left until a deadline, in milliseconds. -/
def remaining (deadline now padding : Int) : Int :=
  Word.clamp (Word.clamp (deadline - now) - padding)

/-- How long a call may take; an error when nothing is left. -/
def callTimeout (longest : Option Duration) (deadline : Option Deadline) (now padding : Int) :
    Except Error (Option Duration) :=
  match deadline with
  | none => .ok longest
  | some d =>
    let left := remaining d now padding
    if left < 0 then .error (.timeout d left)
    else
      let budget := Duration.ofMillis left.natAbs
      .ok (some (match longest with | some l => l.least budget | none => budget))

end Coalesce
