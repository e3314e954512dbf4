/-!
# Lengths of time

A `Duration` counts nanoseconds; it is compared and cut to whole milliseconds, never added.
-/

namespace Coalesce

/-- A length of time. -/
structure Duration where
  nanos : Nat
  deriving DecidableEq, Inhabited

namespace Duration

def ofMillis (n : Nat) : Duration := ⟨n * 1000000⟩

/-- whole milliseconds -/
def millis (d : Duration) : Nat := d.nanos / 1000000

def seconds (d : Duration) : Nat := d.nanos / 1000000000

/-- the nanoseconds beyond whole seconds -/
def subsecond (d : Duration) : Nat := d.nanos % 1000000000

/-- the shorter one -/
def least (a b : Duration) : Duration := ⟨min a.nanos b.nanos⟩

end Duration

end Coalesce
