import Coalesce.Dispatch.Exchange

/-!
# All that becomes of some requests

* `Progress.take`     takes what came back for a call, as long as something is waited for;
* `Target.execute`    starts the calls for some requests, and takes one outcome after the other.

Whoever has several exchanges at a time takes their outcomes in between those of others.
-/

namespace Coalesce

namespace Progress

def take (codec : Codec) (p : Progress) (back : Nat × Outcome Json) : Progress :=
  match p with
  | .running e => e.resume codec back.1 back.2
  | .ended result => .ended result

theorem take_running (codec : Codec) (e : Exchange) (back : Nat × Outcome Json) :
    (running e).take codec back = e.resume codec back.1 back.2 := rfl

theorem take_ended (codec : Codec) (result : Outcome (List Json)) (back : Nat × Outcome Json) :
    (ended result).take codec back = .ended result := rfl

/-- what an exchange has come to if nothing else comes back -/
def result : Progress → Outcome (List Json)
  | .ended result => result
  | .running _ => .crashed

end Progress

namespace Target

/-- All that becomes of some requests: their calls are started, and then one outcome after the other
comes back. -/
def execute (t : Target) (now : Int) (transport : Transport) (items : List Item)
    (back : List (Nat × Outcome Json)) : Progress :=
  back.foldl (Progress.take t.codec) (t.start now transport items).2

theorem execute_snoc (t : Target) (now : Int) (transport : Transport) (items : List Item)
    (back : List (Nat × Outcome Json)) (x : Nat × Outcome Json) :
    t.execute now transport items (back ++ [x])
      = (t.execute now transport items back).take t.codec x := List.foldl_append

end Target

end Coalesce
