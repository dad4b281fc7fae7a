import CivicLedger.Chain.Block
import CivicLedger.Number.Shortest

/-!
# Metrics

What a node has counted since it was opened, and the samples that it publishes. Values are published
as binary numbers in full, without an exponent.
-/

namespace CivicLedger

structure Metrics where
  blocks : Nat
  applied : Nat
  refused : Nat
  malformed : Nat
  unrecognized : Nat
  settled : Nat
  submissionsAccepted : Nat
  submissionsRefused : Nat
  /-- The height of the last block that was not skipped. -/
  height : Nat
  deriving DecidableEq, Repr

namespace Metrics

def zero : Metrics := ⟨0, 0, 0, 0, 0, 0, 0, 0, 0⟩

/-- The largest height that the gauge shows. -/
def maxHeight : Nat := UInt64.size / 2 - 1

def record (m : Metrics) (r : BlockReport) : Metrics :=
  { m with
    blocks := m.blocks + 1
    applied := m.applied + r.applied
    refused := m.refused + r.refused
    malformed := m.malformed + r.malformed
    unrecognized := m.unrecognized + r.unrecognized
    settled := m.settled + r.settled.length
    height := if r.skipped then m.height else min r.height.toNat maxHeight }

/-- Without exponents and without a point at the end. -/
def layout : RealLayout := ⟨-400, 400, false⟩

def valueText (n : Nat) : String := layout.text ((Binary64.ofNat n).getD Binary64.zero)

def samples (m : Metrics) : List (String × String) :=
  [("agora_applied_height", valueText m.height),
   ("agora_bills_finalized_total", valueText m.settled),
   ("agora_block_apply_time_ms_count", valueText m.blocks),
   ("agora_blocks_applied_total", valueText m.blocks),
   ("agora_ops_applied_total", valueText m.applied),
   ("agora_ops_malformed_total", valueText m.malformed),
   ("agora_ops_rejected_total", valueText m.refused),
   ("agora_ops_unrecognized_total", valueText m.unrecognized),
   ("agora_submissions_accepted_total", valueText m.submissionsAccepted),
   ("agora_submissions_rejected_total", valueText m.submissionsRefused)]

end Metrics

end CivicLedger
