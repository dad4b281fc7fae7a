import CivicLedger.Ordered.Map
import CivicLedger.State.Fault

/-!
# Reads and edits of a ledger

What every store of the ledger answers and how it can be changed. Reads list their results in the
order of their keys. An edit that fails keeps what it had written before; a group of edits is
committed by taking the state it leaves, and dropped by keeping the one before.
-/

namespace CivicLedger

/-- The reads of a ledger held in a `σ`. -/
class LedgerReads (σ : Type) where
  delegate? : σ → KeyId → Except StoreFault (Option Delegate)
  delegateNamed? : σ → String → Except StoreFault (Option KeyId)
  delegates : σ → Except StoreFault (List Delegate)
  /-- The delegates an address votes for. -/
  delegateVotesOf : σ → KeyId → Except StoreFault (List KeyId)
  delegateVoters : σ → KeyId → Except StoreFault (List KeyId)
  committee? : σ → KeyId → Except StoreFault (Option Committee)
  committeeNamed? : σ → String → Except StoreFault (Option KeyId)
  committees : σ → Except StoreFault (List Committee)
  /-- The committee an address votes for. -/
  committeeVoteOf? : σ → KeyId → Except StoreFault (Option KeyId)
  committeeVoters : σ → KeyId → Except StoreFault (List KeyId)
  bill? : σ → BillId → Except StoreFault (Option Bill)
  bills : σ → Except StoreFault (List Bill)
  committeeBills : σ → KeyId → Except StoreFault (List BillId)
  ballot? : σ → BillId → KeyId → Except StoreFault (Option Ballot)
  ballots : σ → BillId → Except StoreFault (List (KeyId × Ballot))
  /-- The bills an address has voted on. -/
  billsVotedBy : σ → KeyId → Except StoreFault (List BillId)
  settlement? : σ → BillId → Except StoreFault (Option Settlement)
  /-- The bills not settled whose windows have closed by a time, the earliest end first. -/
  billsDue : σ → Timestamp → Except StoreFault (List BillId)
  nameOf? : σ → KeyId → Except StoreFault (Option String)
  named? : σ → String → Except StoreFault (Option KeyId)
  names : σ → Except StoreFault (List (KeyId × String))
  token? : σ → TokenId → Except StoreFault (Option Token)
  tokenAt? : σ → KeyId → Except StoreFault (Option TokenId)
  tokenWithSymbol? : σ → KeyId → String → Except StoreFault (Option TokenId)
  tokens : σ → Except StoreFault (List Token)
  /-- What a holder has available, locks apart. -/
  tokenBalance : σ → TokenId → KeyId → Except StoreFault UInt64
  tokenHolders : σ → TokenId → Except StoreFault (List (KeyId × UInt64))
  locksOf : σ → TokenId → KeyId → Except StoreFault (List TokenLock)
  locks : σ → TokenId → Except StoreFault (List TokenLock)
  /-- The tokens an address has ever had a balance or a lock in. -/
  tokensHeldBy : σ → KeyId → Except StoreFault (List TokenId)
  coinBalances : σ → Except StoreFault (List (KeyId × UInt64))
  /-- The block that the coin balances belong to. -/
  synced? : σ → Except StoreFault (Option ChainPoint)
  cursor? : σ → Except StoreFault (Option Cursor)
  nextTokenId : σ → Except StoreFault TokenId

/-- A change to a `σ`; where it fails, the state it has reached is kept. -/
abbrev Edit (σ : Type) (α : Type) := EStateM StoreFault σ α

class LedgerEdits (σ : Type) extends LedgerReads σ where
  insertDelegate : Delegate → Edit σ Unit
  addDelegateVote : (voter delegate : KeyId) → Edit σ Unit
  removeDelegateVote : (voter delegate : KeyId) → Edit σ Unit
  insertCommittee : Committee → Edit σ Unit
  putCommitteeVote : (voter committee : KeyId) → Edit σ Unit
  removeCommitteeVote : (voter committee : KeyId) → Edit σ Unit
  insertBill : Bill → Edit σ Unit
  putBallot : BillId → (voter : KeyId) → (choice : UInt8) → Edit σ Unit
  /-- Records how a bill came out and the weight of each of its votes. -/
  settle : BillId → Settlement → List (KeyId × UInt64) → Edit σ Unit
  insertName : KeyId → String → Edit σ Unit
  insertToken : Token → Edit σ Unit
  /-- Zero removes the balance. -/
  setTokenBalance : TokenId → (holder : KeyId) → UInt64 → Edit σ Unit
  /-- Adds to the lock of the same token, holder and expiry, if there is one. -/
  addLock : TokenLock → Edit σ Unit
  removeLock : TokenId → (holder : KeyId) → (expiry : Height) → Edit σ Unit
  /-- Zero removes the balance. -/
  setCoinBalance : KeyId → UInt64 → Edit σ Unit
  setSynced : ChainPoint → Edit σ Unit
  setCursor : Cursor → Edit σ Unit

namespace Edit

variable {σ α : Type}

def read (f : σ → Except StoreFault α) : Edit σ α := fun s =>
  match f s with
  | .ok a => .ok a s
  | .error e => .error e s

end Edit

end CivicLedger
