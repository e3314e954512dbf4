import Coalesce.Notice

/-!
# Options in two modes

* `Options.lenient`   the settings in any case, with a notice of every number outside its bounds;
* `Options.strict`    the settings, or an error that lists these numbers.

A number that gives way to the strategy is no fault, and is passed over in both modes.
-/

namespace Coalesce.Options

def lenient (o : Options) : List Notice × Settings := (o.outOfRange.map .clamped, o.settings)

def strict (o : Options) : Except Error Settings :=
  match o.resolveStrict with
  | .ok settings => .ok settings
  | .error rejected => .error (.configuration (.outOfRange none rejected))

end Coalesce.Options
