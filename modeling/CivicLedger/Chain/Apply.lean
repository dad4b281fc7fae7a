import CivicLedger.Chain.Block
import CivicLedger.Chain.Perform
import CivicLedger.Rules.Admission
import CivicLedger.Rules.Tally
import CivicLedger.State.Coins

/-!
# Applying blocks

A block first settles the bills whose windows have closed and moves the cursor into itself; then
each of its transactions is applied and the cursor moves behind it. Each of these steps is committed
as a whole together with the cursor, so that a block that comes again after a stop is taken up where
it was left. Blocks behind the cursor are skipped.
-/

namespace CivicLedger

/-- Who applies blocks: how far it has come and whether it has given up. -/
structure Applicant where
  last : Option Height
  halted : Bool
  deriving DecidableEq, Repr

namespace Chain

def fresh : Applicant := ⟨none, false⟩

/-- The first transaction whose index is not above the one before. -/
def misplaced? : Option UInt32 → List Tx → Option UInt32
  | _, [] => none
  | previous, tx :: rest =>
    match previous with
    | some p => if tx.index ≤ p then some tx.index else misplaced? (some tx.index) rest
    | none => misplaced? (some tx.index) rest

def check (a : Applicant) (b : Block) : Except ChainFault Unit := do
  if a.halted then throw .halted
  match a.last with
  | some last => if b.height < last then throw (.blockOrder b.height last)
  | none => pure ()
  match misplaced? none b.txs with
  | some index => throw (.txOrder b.height index)
  | none => return ()

section

variable {σ : Type} [LedgerEdits σ]

open LedgerReads LedgerEdits Step

/-- How a bill comes out when its votes are weighed by the coins of their voters. -/
def settlementOf (b : Block) (bill : Bill) (votes : List (KeyId × Ballot))
    (weights : List (KeyId × UInt64)) : Settlement :=
  let t := Tally.ofVotes bill.options.length
    (votes.zipWith (fun vote weight => (vote.2.choice, weight.2)) weights)
  ⟨t.passed, t.winner, t.total, t.totals, b.height, b.time⟩

def settleBill (b : Block) (coins : Coins) (id : BillId) : Step σ (BillId × Settlement) := do
  match ← read (bill? · id) with
  | none => throw (.inconsistent (.dueWithoutRecord id))
  | some bill =>
    let votes ← read (ballots · id)
    let weights := votes.map fun vote => (vote.1, coins.balance vote.1)
    let s := settlementOf b bill votes weights
    consistent (settle id s weights)
    return (id, s)

def entersBlock (cursor : Option Cursor) (b : Block) : Bool :=
  match cursor with
  | some c => c.height < b.height
  | none => true

/-- Settles every bill that is due and moves the cursor into the block. -/
def enter (b : Block) (coins : Coins) (cursor : Option Cursor) :
    Step σ (List (BillId × Settlement)) :=
  atomically do
    let due ← read (billsDue · b.time)
    let settled ← due.mapM (settleBill b coins)
    if entersBlock cursor b then stored (setCursor ⟨b.height, 0⟩)
    return settled

/-- What becomes of an operation: its fee must suffice and the rules must admit it. -/
def applyOperation (fees : FeeSchedule) (b : Block) (tx : Tx) (op : Operation) :
    Step σ TxOutcome := do
  let required := op.minFee fees
  if tx.fee < required then return .refused (.feeTooLow tx.fee required)
  match assess (← get) b.point tx.sender op with
  | .error (.refused r) => return .refused r
  | .error (.store fault) => throw (.storage fault)
  | .ok effect =>
    perform effect
    return .applied effect.kind

def indexAfter (i : UInt32) : UInt32 := if i.toNat + 1 < UInt32.size then i + 1 else i

def applyTx (fees : FeeSchedule) (b : Block) (tx : Tx) : Step σ TxOutcome :=
  atomically do
    let outcome ← match Payload.decode tx.payload with
      | .error fault => pure (.malformed fault)
      | .ok (.unrecognized opcode _) => pure (.unrecognized opcode)
      | .ok op => applyOperation fees b tx op
    stored (setCursor ⟨b.height, indexAfter tx.index⟩)
    return outcome

/-- Whether a transaction is behind the cursor that the block found. -/
def isCovered (cursor : Option Cursor) (b : Block) (tx : Tx) : Bool :=
  match cursor with
  | some c => c.covers b.height tx.index
  | none => false

def applyOrPass (fees : FeeSchedule) (b : Block) (cursor : Option Cursor) (tx : Tx) :
    Step σ (UInt32 × TxOutcome) := do
  if isCovered cursor b tx then return (tx.index, .alreadyApplied)
  return (tx.index, ← applyTx fees b tx)

def applyBody (fees : FeeSchedule) (b : Block) (coins : Coins) (cursor : Option Cursor) :
    Step σ BlockReport := do
  let settled ← enter b coins cursor
  let outcomes ← b.txs.mapM (applyOrPass fees b cursor)
  return ⟨b.height, outcomes, settled, false⟩

def applyChecked (fees : FeeSchedule) (b : Block) (coins : Coins) : Step σ BlockReport := do
  let cursor ← read cursor?
  match cursor with
  | some c =>
    if b.height < c.height then return ⟨b.height, [], [], true⟩
    else applyBody fees b coins cursor
  | none => applyBody fees b coins cursor

/-- The applicant after a checked block. Only an inconsistency halts it. -/
def after (b : Block) (result : Except ChainFault BlockReport) : Applicant :=
  match result with
  | .error (.inconsistent _) => ⟨some b.height, true⟩
  | _ => ⟨some b.height, false⟩

structure Applied (σ : Type) where
  result : Except ChainFault BlockReport
  applicant : Applicant
  store : σ

/-- Applies a block. What was committed before a fault stays. -/
def apply (fees : FeeSchedule) (a : Applicant) (b : Block) (coins : Coins) (s : σ) : Applied σ :=
  match check a b with
  | .error fault => ⟨.error fault, a, s⟩
  | .ok () =>
    match applyChecked fees b coins s with
    | .ok report s => ⟨.ok report, after b (.ok report), s⟩
    | .error fault s => ⟨.error fault, after b (.error fault), s⟩

end

end Chain

end CivicLedger
