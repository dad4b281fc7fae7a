import CivicLedger.Chain.Block
import CivicLedger.Chain.Fault

/-!
# Notices

What a node tells its listeners about a block: first the bills it settled, then its operations in
their order, and last the block itself.
-/

namespace CivicLedger

inductive Notice where
  | blockApplied (height : Height) (applied refused : Nat)
  | operationApplied (height : Height) (index : UInt32) (kind : OpKind)
  | operationRefused (height : Height) (index : UInt32) (refusal : Refusal)
  | billSettled (bill : BillId) (settlement : Settlement)
  | halted (height : Height) (fault : ChainFault)
  deriving DecidableEq

namespace Notice

def ofOutcome (height : Height) (index : UInt32) : TxOutcome → Option Notice
  | .applied kind => some (operationApplied height index kind)
  | .refused refusal => some (operationRefused height index refusal)
  | _ => none

def ofReport (r : BlockReport) : List Notice :=
  r.settled.map (fun e => billSettled e.1 e.2) ++
    r.outcomes.filterMap (fun e => ofOutcome r.height e.1 e.2) ++
    [blockApplied r.height r.applied r.refused]

/-- Only a fault after which nothing is applied any more is told. -/
def ofFault (height : Height) (fault : ChainFault) : List Notice :=
  if fault.isFatal then [halted height fault] else []

end Notice

end CivicLedger
