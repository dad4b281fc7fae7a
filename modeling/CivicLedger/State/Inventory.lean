import CivicLedger.State.Interface
import CivicLedger.State.Layout

/-!
# The inventory of a ledger

All records of a ledger in one value, its transcript, and the digest of the transcript. The
transcript consists of sections, each framed by a tag and its length, so that no section runs into
the next. How far the chain has been applied is not part of it.
-/

namespace CivicLedger

structure Inventory where
  /-- Delegates with their voters. -/
  delegates : List (Delegate × List KeyId)
  /-- Committees with their voters. -/
  committees : List (Committee × List KeyId)
  /-- Bills with their votes and how they came out. -/
  bills : List (Bill × List (KeyId × Ballot) × Option Settlement)
  names : List (KeyId × String)
  /-- Tokens with their available balances and their locks. -/
  tokens : List (Token × List (KeyId × UInt64) × List TokenLock)
  deriving DecidableEq

structure RecordCounts where
  delegates : Nat
  delegateVotes : Nat
  committees : Nat
  committeeVotes : Nat
  bills : Nat
  settledBills : Nat
  ballots : Nat
  names : Nat
  tokens : Nat
  tokenBalances : Nat
  tokenLocks : Nat
  deriving DecidableEq, Repr

def RecordCounts.labelled (c : RecordCounts) : List (String × Nat) :=
  [("delegates", c.delegates), ("delegate_votes", c.delegateVotes), ("committees", c.committees),
   ("committee_votes", c.committeeVotes), ("bills", c.bills), ("frozen_bills", c.settledBills),
   ("bill_votes", c.ballots), ("names", c.names), ("tokens", c.tokens),
   ("token_balances", c.tokenBalances), ("token_locks", c.tokenLocks)]

namespace Inventory

variable {σ : Type} [LedgerReads σ]

def collect (s : σ) : Except StoreFault Inventory := do
  let delegates ← (← LedgerReads.delegates s).mapM fun d => do
    return (d, ← LedgerReads.delegateVoters s d.address)
  let committees ← (← LedgerReads.committees s).mapM fun c => do
    return (c, ← LedgerReads.committeeVoters s c.address)
  let bills ← (← LedgerReads.bills s).mapM fun b => do
    let votes ← LedgerReads.ballots s b.id
    return (b, votes, ← LedgerReads.settlement? s b.id)
  let names ← LedgerReads.names s
  let tokens ← (← LedgerReads.tokens s).mapM fun t => do
    let holders ← LedgerReads.tokenHolders s t.id
    return (t, holders, ← LedgerReads.locks s t.id)
  return ⟨delegates, committees, bills, names, tokens⟩

def ofAmount (e : KeyId × UInt64) : Bytes := Wire.ofKey e.1 ++ Bytes.ofUInt64LE e.2
def ofVote (e : KeyId × Ballot) : Bytes := Wire.ofKey e.1 ++ e.2.toBytes
def ofName (e : KeyId × String) : Bytes := Wire.ofKey e.1 ++ Wire.ofText e.2

/-- The sections in their order: a tag and the bytes. -/
def sections (v : Inventory) : List (String × Bytes) :=
  [("delegates", Wire.ofList (Delegate.toBytes ·.1) v.delegates)] ++
    v.delegates.map (fun e => ("delegate_voters", Wire.ofList Wire.ofKey e.2)) ++
  [("committees", Wire.ofList (Committee.toBytes ·.1) v.committees)] ++
    v.committees.map (fun e => ("committee_voters", Wire.ofList Wire.ofKey e.2)) ++
  [("bills", Wire.ofList (Bill.toBytes ·.1) v.bills)] ++
    v.bills.flatMap (fun e =>
      [("bill_votes", Wire.ofList ofVote e.2.1),
       ("bill_state", Wire.ofOption Settlement.toBytes e.2.2)]) ++
  [("names", Wire.ofList ofName v.names)] ++
  [("tokens", Wire.ofList (Token.toBytes ·.1) v.tokens)] ++
    v.tokens.flatMap (fun e =>
      [("token_holders", Wire.ofList ofAmount e.2.1),
       ("token_locks", Wire.ofList TokenLock.toBytes e.2.2)])

def frame (e : String × Bytes) : Bytes := Wire.ofText e.1 ++ Wire.ofLength e.2.length ++ e.2

def transcript (v : Inventory) : Bytes := v.sections.flatMap frame

def digest (v : Inventory) : FixedBytes 32 := Blake2b.hash v.transcript

def counts (v : Inventory) : RecordCounts where
  delegates := v.delegates.length
  delegateVotes := (v.delegates.flatMap (·.2)).length
  committees := v.committees.length
  committeeVotes := (v.committees.flatMap (·.2)).length
  bills := v.bills.length
  settledBills := v.bills.countP (·.2.2.isSome)
  ballots := (v.bills.flatMap (·.2.1)).length
  names := v.names.length
  tokens := v.tokens.length
  tokenBalances := (v.tokens.flatMap (·.2.1)).length
  tokenLocks := (v.tokens.flatMap (·.2.2)).length

end Inventory

end CivicLedger
