import CivicLedger.Chain.Replay
import CivicLedger.Node.Sync

/-!
# Replaying updates

A node takes updates one after another up to the first that fails, whatever the fault.
-/

namespace CivicLedger.Node

structure Replayed (σ : Type) where
  result : Except NodeFault Chain.ReplaySummary
  node : Node σ

variable {σ : Type} [LedgerEdits σ]

def replayFrom (fees : FeeSchedule) :
    List Update → Chain.ReplaySummary → Node σ → Replayed σ
  | [], summary, n => ⟨.ok summary, n⟩
  | u :: rest, summary, n =>
    let d := deliver fees n u
    match d.result with
    | .ok report => replayFrom fees rest (summary.record report) d.node
    | .error fault => ⟨.error fault, d.node⟩

def replay (fees : FeeSchedule) (updates : List Update) (n : Node σ) : Replayed σ :=
  replayFrom fees updates .empty n

end CivicLedger.Node
