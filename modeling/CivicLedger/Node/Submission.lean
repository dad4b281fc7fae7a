import CivicLedger.Node.Fault
import CivicLedger.Node.Metrics
import CivicLedger.Rules.Admission
import CivicLedger.State.Coins

/-!
# Submitting operations

An operation is tried against the ledger as if it came with the next block, its least fee is held
against the sender's coins, and its payload goes to the wallet. Names are looked up before.
-/

namespace CivicLedger

/-- What submissions are judged by. -/
structure Desk (σ : Type) where
  ledger : σ
  coins : Coins
  fees : FeeSchedule
  /-- The last block, with the time that counts. -/
  tip : ChainPoint
  /-- How long the wallet may take. -/
  timeout : UInt64

structure Outbound where
  wallet : Wallet
  metrics : Metrics

abbrev Submission (α : Type) := EStateM NodeFault Outbound α

namespace Desk

variable {σ : Type} [LedgerReads σ]

open LedgerReads

/-- The next height at the time that counts. -/
def point (d : Desk σ) : ChainPoint := ⟨Word.satAdd d.tip.height 1, d.tip.time⟩

def read {α : Type} (d : Desk σ) (f : σ → Except StoreFault α) : Except NodeFault α :=
  match f d.ledger with
  | .ok a => .ok a
  | .error fault => .error (.store fault)

/-- The payload and the fee of an operation that the rules admit and the sender can pay for. -/
def prepare (d : Desk σ) (sender : KeyId) (op : Operation) : Except NodeFault (Bytes × UInt64) :=
  match assess d.ledger d.point sender op with
  | .error (.refused r) => .error (.refused r)
  | .error (.store fault) => .error (.store fault)
  | .ok _ =>
    let fee := op.minFee d.fees
    let balance := d.coins.balance sender
    if balance < fee then .error (.insufficientFunds balance fee)
    else
      match Payload.encode op with
      | .error fault => .error (.payload fault)
      | .ok payload => .ok (payload, fee)

def broadcast (d : Desk σ) (sender : KeyId) (op : Operation) (w : Wallet) :
    Except NodeFault TxId × Wallet :=
  match d.prepare sender op with
  | .error fault => (.error fault, w)
  | .ok (payload, fee) =>
    match w.send ⟨payload, fee, sender⟩ with
    | (.taken tx, w) => (.ok tx, w)
    | (.refused fault, w) => (.error (.wallet fault), w)
    | (.none, w) => (.error (.timeout d.timeout), w)

def submit (d : Desk σ) (sender : KeyId) (op : Operation) : Submission TxId := fun o =>
  match d.broadcast sender op o.wallet with
  | (.ok tx, w) =>
    .ok tx ⟨w, { o.metrics with submissionsAccepted := o.metrics.submissionsAccepted + 1 }⟩
  | (.error fault, w) =>
    .error fault ⟨w, { o.metrics with submissionsRefused := o.metrics.submissionsRefused + 1 }⟩

def first {α : Type} : Except NodeFault α → Submission α
  | .ok a => pure a
  | .error fault => throw fault

/-- The addresses of delegates, none of them named twice; `seen` are the names before. -/
def delegateAddresses (d : Desk σ) (seen : List String) :
    List String → Except NodeFault (List KeyId)
  | [] => .ok []
  | name :: rest => do
    if name ∈ seen then throw (.duplicateName .delegate name)
    match ← d.read (delegateNamed? · name) with
    | none => throw (.unknownName .delegate name)
    | some address => return address :: (← d.delegateAddresses (name :: seen) rest)

def delegateSet (d : Desk σ) (names : List String) : Except NodeFault (SortedSet KeyId) := do
  return SortedSet.ofKeys (← d.delegateAddresses [] names)

def committeeAddress (d : Desk σ) (text : String) : Except NodeFault KeyId :=
  match KeyId.ofText text with
  | .ok address => .ok address
  | .error _ => do
    match ← d.read (committeeNamed? · text) with
    | some address => return address
    | none => throw (.unknownName .committee text)

def tokenAt (d : Desk σ) (address : KeyId) : Except NodeFault Token := do
  match ← d.read (tokenAt? · address) with
  | none => throw (.unknownName .tokenAddress address.text)
  | some id =>
    match ← d.read (token? · id) with
    | some t => return t
    | none => throw (.unknownName .tokenAddress address.text)

def amountOf (text : String) (digits : UInt8) : Except NodeFault UInt64 :=
  match Amount.parse text digits with
  | .ok raw => .ok raw
  | .error fault => .error (.amount fault)

def voteDelegates (d : Desk σ) (sender : KeyId) (names : List String) : Submission TxId := do
  d.submit sender (.voteDelegates (← first (d.delegateSet names)))

def revokeDelegates (d : Desk σ) (sender : KeyId) (names : List String) : Submission TxId := do
  d.submit sender (.revokeDelegates (← first (d.delegateSet names)))

def voteCommittee (d : Desk σ) (sender : KeyId) (committee : String) : Submission TxId := do
  d.submit sender (.voteCommittee (← first (d.committeeAddress committee)))

def revokeCommittee (d : Desk σ) (sender : KeyId) (committee : String) : Submission TxId := do
  d.submit sender (.revokeCommittee (← first (d.committeeAddress committee)))

def createToken (d : Desk σ) (owner : KeyId) (symbol name : String) (address : KeyId)
    (supply : String) (digits : UInt8) : Submission TxId := do
  let total ← first (amountOf supply digits)
  d.submit owner (.createToken ⟨symbol, name, address, total, digits⟩)

def sendToken (d : Desk σ) (address sender target : KeyId) (amount comment : String) :
    Submission TxId := do
  let token ← first (d.tokenAt address)
  let raw ← first (amountOf amount token.digits)
  d.submit sender (.transferToken token.id target raw comment)

/-- Locks tokens for so many blocks from the next one on. -/
def lockToken (d : Desk σ) (address sender target : KeyId) (amount : String) (blocks : UInt64)
    (comment : String) : Submission TxId := do
  let token ← first (d.tokenAt address)
  let raw ← first (amountOf amount token.digits)
  d.submit sender
    (.lockToken token.id target raw (Word.satAdd d.point.height blocks) comment)

end Desk

end CivicLedger
