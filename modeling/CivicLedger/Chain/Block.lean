import CivicLedger.Rules.Refusal
import CivicLedger.Operation.Basic

/-!
# Blocks

A confirmed block with the transactions in it that carry payloads, and the report on applying it.
-/

namespace CivicLedger

structure Tx where
  /-- The place of the transaction in its block. -/
  index : UInt32
  payload : Bytes
  sender : KeyId
  fee : UInt64
  deriving DecidableEq

structure Block where
  height : Height
  time : Timestamp
  txs : List Tx
  deriving DecidableEq

namespace Block

def point (b : Block) : ChainPoint := ⟨b.height, b.time⟩

def nextIndex (b : Block) : UInt32 :=
  match b.txs.getLast? with
  | some tx => tx.index + 1
  | none => 0

def withTx (b : Block) (payload : Bytes) (sender : KeyId) (fee : UInt64) : Block :=
  { b with txs := b.txs ++ [⟨b.nextIndex, payload, sender, fee⟩] }

end Block

inductive TxOutcome where
  | applied (kind : OpKind)
  /-- Read, but refused by the rules. -/
  | refused (refusal : Refusal)
  | malformed (fault : PayloadFault)
  | unrecognized (opcode : UInt8)
  /-- Behind the cursor when the block came. -/
  | alreadyApplied
  deriving DecidableEq

structure BlockReport where
  height : Height
  outcomes : List (UInt32 × TxOutcome)
  /-- The bills that the block settled before its transactions. -/
  settled : List (BillId × Settlement)
  /-- The whole block was behind the cursor. -/
  skipped : Bool
  deriving DecidableEq

namespace BlockReport

def count (r : BlockReport) (p : TxOutcome → Bool) : Nat := r.outcomes.countP fun e => p e.2

def applied (r : BlockReport) : Nat := r.count fun | .applied _ => true | _ => false
def refused (r : BlockReport) : Nat := r.count fun | .refused _ => true | _ => false
def malformed (r : BlockReport) : Nat := r.count fun | .malformed _ => true | _ => false
def unrecognized (r : BlockReport) : Nat := r.count fun | .unrecognized _ => true | _ => false

end BlockReport

end CivicLedger
