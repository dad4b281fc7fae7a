import CivicLedger.State.Interface

/-!
# The ledger in memory

One ordered map for each table of the ledger. Names, voters and due bills are kept both ways round
so that each can be looked up from either side.
-/

namespace CivicLedger

structure Ledger where
  delegates : SortedMap KeyId Delegate
  delegateNames : SortedMap String KeyId
  /-- By voter and delegate. -/
  delegateVotes : SortedSet (KeyId × KeyId)
  /-- By delegate and voter. -/
  delegateVoters : SortedSet (KeyId × KeyId)
  committees : SortedMap KeyId Committee
  committeeNames : SortedMap String KeyId
  /-- The committee each voter votes for. -/
  committeeVotes : SortedMap KeyId KeyId
  /-- By committee and voter. -/
  committeeVoters : SortedSet (KeyId × KeyId)
  bills : SortedMap BillId Bill
  committeeBills : SortedSet (KeyId × BillId)
  ballots : SortedMap (BillId × KeyId) Ballot
  /-- By voter and bill. -/
  votedBills : SortedSet (KeyId × BillId)
  settlements : SortedMap BillId Settlement
  /-- Bills not settled, by the end of their windows. -/
  dueBills : SortedSet (Timestamp × BillId)
  names : SortedMap KeyId String
  namedKeys : SortedMap String KeyId
  tokens : SortedMap TokenId Token
  tokenAddresses : SortedMap KeyId TokenId
  tokenSymbols : SortedMap (KeyId × String) TokenId
  tokenBalances : SortedMap (TokenId × KeyId) UInt64
  tokenLocks : SortedMap ((TokenId × KeyId) × Height) UInt64
  heldTokens : SortedSet (KeyId × TokenId)
  coinBalances : SortedMap KeyId UInt64
  synced : Option ChainPoint
  cursor : Option Cursor
  deriving DecidableEq

namespace Ledger

def empty : Ledger where
  delegates := ∅
  delegateNames := ∅
  delegateVotes := ∅
  delegateVoters := ∅
  committees := ∅
  committeeNames := ∅
  committeeVotes := ∅
  committeeVoters := ∅
  bills := ∅
  committeeBills := ∅
  ballots := ∅
  votedBills := ∅
  settlements := ∅
  dueBills := ∅
  names := ∅
  namedKeys := ∅
  tokens := ∅
  tokenAddresses := ∅
  tokenSymbols := ∅
  tokenBalances := ∅
  tokenLocks := ∅
  heldTokens := ∅
  coinBalances := ∅
  synced := none
  cursor := none

instance : EmptyCollection Ledger := ⟨empty⟩

/-- The second halves of the pairs that begin with `k`. -/
def pairedWith {κ μ : Type} [KeyOrder κ] [KeyOrder μ] (s : SortedSet (κ × μ)) (k : κ) : List μ :=
  (s.within k).map Prod.fst

def locksOf (l : Ledger) (token : TokenId) (holder : KeyId) : List TokenLock :=
  (l.tokenLocks.within (token, holder)).map fun e => ⟨token, holder, e.1, e.2⟩

def locks (l : Ledger) (token : TokenId) : List TokenLock :=
  l.tokenLocks.entries.filterMap fun e =>
    if e.1.1.1 = token then some ⟨token, e.1.1.2, e.1.2, e.2⟩ else none

def billsDue (l : Ledger) (time : Timestamp) : List BillId :=
  l.dueBills.entries.filterMap fun e => if e.1.1 ≤ time then some e.1.2 else none

def nextTokenId (l : Ledger) : TokenId :=
  match l.tokens.last? with
  | some (_, t) => t.id.next
  | none => TokenId.first

instance : LedgerReads Ledger where
  delegate? l a := .ok (l.delegates.get? a)
  delegateNamed? l n := .ok (l.delegateNames.get? n)
  delegates l := .ok l.delegates.values
  delegateVotesOf l v := .ok (pairedWith l.delegateVotes v)
  delegateVoters l d := .ok (pairedWith l.delegateVoters d)
  committee? l a := .ok (l.committees.get? a)
  committeeNamed? l n := .ok (l.committeeNames.get? n)
  committees l := .ok l.committees.values
  committeeVoteOf? l v := .ok (l.committeeVotes.get? v)
  committeeVoters l c := .ok (pairedWith l.committeeVoters c)
  bill? l b := .ok (l.bills.get? b)
  bills l := .ok l.bills.values
  committeeBills l c := .ok (pairedWith l.committeeBills c)
  ballot? l b v := .ok (l.ballots.get? (b, v))
  ballots l b := .ok (l.ballots.within b)
  billsVotedBy l v := .ok (pairedWith l.votedBills v)
  settlement? l b := .ok (l.settlements.get? b)
  billsDue l t := .ok (l.billsDue t)
  nameOf? l a := .ok (l.names.get? a)
  named? l n := .ok (l.namedKeys.get? n)
  names l := .ok l.names.entries
  token? l t := .ok (l.tokens.get? t)
  tokenAt? l a := .ok (l.tokenAddresses.get? a)
  tokenWithSymbol? l o s := .ok (l.tokenSymbols.get? (o, s))
  tokens l := .ok l.tokens.values
  tokenBalance l t h := .ok ((l.tokenBalances.get? (t, h)).getD 0)
  tokenHolders l t := .ok (l.tokenBalances.within t)
  locksOf l t h := .ok (l.locksOf t h)
  locks l t := .ok (l.locks t)
  tokensHeldBy l h := .ok (pairedWith l.heldTokens h)
  coinBalances l := .ok l.coinBalances.entries
  synced? l := .ok l.synced
  cursor? l := .ok l.cursor
  nextTokenId l := .ok l.nextTokenId

def ensureAbsent (entry : Entry) (there : Bool) : Edit Ledger Unit :=
  if there then throw (.duplicate entry) else pure ()

def ensurePresent (entry : Entry) (there : Bool) : Edit Ledger Unit :=
  if there then pure () else throw (.notFound entry)

def insertDelegate (d : Delegate) : Edit Ledger Unit := do
  let l ← get
  ensureAbsent (.delegate d.address) (l.delegates.contains d.address)
  ensureAbsent (.delegateName d.name) (l.delegateNames.contains d.name)
  set { l with
    delegates := l.delegates.insert d.address d
    delegateNames := l.delegateNames.insert d.name d.address }

def addDelegateVote (voter delegate : KeyId) : Edit Ledger Unit := do
  let l ← get
  ensureAbsent (.delegateVote voter delegate) (l.delegateVotes.contains (voter, delegate))
  set { l with
    delegateVotes := l.delegateVotes.add (voter, delegate)
    delegateVoters := l.delegateVoters.add (delegate, voter) }

def removeDelegateVote (voter delegate : KeyId) : Edit Ledger Unit := do
  let l ← get
  ensurePresent (.delegateVote voter delegate) (l.delegateVotes.contains (voter, delegate))
  set { l with
    delegateVotes := l.delegateVotes.erase (voter, delegate)
    delegateVoters := l.delegateVoters.erase (delegate, voter) }

def insertCommittee (c : Committee) : Edit Ledger Unit := do
  let l ← get
  ensureAbsent (.committee c.address) (l.committees.contains c.address)
  ensureAbsent (.committeeName c.name) (l.committeeNames.contains c.name)
  set { l with
    committees := l.committees.insert c.address c
    committeeNames := l.committeeNames.insert c.name c.address }

def putCommitteeVote (voter committee : KeyId) : Edit Ledger Unit := do
  let l ← get
  ensureAbsent (.committeeVoter voter) (l.committeeVotes.contains voter)
  set { l with
    committeeVotes := l.committeeVotes.insert voter committee
    committeeVoters := l.committeeVoters.add (committee, voter) }

def removeCommitteeVote (voter committee : KeyId) : Edit Ledger Unit := do
  let l ← get
  ensurePresent (.committeeVote voter committee) (l.committeeVotes.get? voter = some committee)
  set { l with
    committeeVotes := l.committeeVotes.erase voter
    committeeVoters := l.committeeVoters.erase (committee, voter) }

def insertBill (b : Bill) : Edit Ledger Unit := do
  let l ← get
  ensureAbsent (.bill b.id) (l.bills.contains b.id)
  set { l with
    bills := l.bills.insert b.id b
    committeeBills := l.committeeBills.add (b.committee, b.id)
    dueBills := l.dueBills.add (b.closes, b.id) }

def putBallot (bill : BillId) (voter : KeyId) (choice : UInt8) : Edit Ledger Unit := do
  let l ← get
  ensureAbsent (.ballot voter bill) (l.ballots.contains (bill, voter))
  set { l with
    ballots := l.ballots.insert (bill, voter) ⟨choice, none⟩
    votedBills := l.votedBills.add (voter, bill) }

def weigh (bill : BillId) (voter : KeyId) (weight : UInt64) : Edit Ledger Unit := do
  let l ← get
  match l.ballots.get? (bill, voter) with
  | none => throw (.notFound (.ballot voter bill))
  | some ballot =>
    set { l with ballots := l.ballots.insert (bill, voter) { ballot with weight := some weight } }

def settle (bill : BillId) (s : Settlement) (weights : List (KeyId × UInt64)) :
    Edit Ledger Unit := do
  let l ← get
  match l.bills.get? bill with
  | none => throw (.notFound (.bill bill))
  | some b =>
    ensureAbsent (.settlement bill) (l.settlements.contains bill)
    weights.forM fun (voter, weight) => weigh bill voter weight
    modify fun l => { l with
      settlements := l.settlements.insert bill s
      dueBills := l.dueBills.erase (b.closes, bill) }

def insertName (address : KeyId) (name : String) : Edit Ledger Unit := do
  let l ← get
  ensureAbsent (.nameOf address) (l.names.contains address)
  ensureAbsent (.name name) (l.namedKeys.contains name)
  set { l with
    names := l.names.insert address name
    namedKeys := l.namedKeys.insert name address }

def insertToken (t : Token) : Edit Ledger Unit := do
  let l ← get
  ensureAbsent (.token t.id) (l.tokens.contains t.id)
  ensureAbsent (.tokenAddress t.address) (l.tokenAddresses.contains t.address)
  ensureAbsent (.tokenSymbol t.symbol t.owner) (l.tokenSymbols.contains (t.owner, t.symbol))
  set { l with
    tokens := l.tokens.insert t.id t
    tokenAddresses := l.tokenAddresses.insert t.address t.id
    tokenSymbols := l.tokenSymbols.insert (t.owner, t.symbol) t.id }

def setTokenBalance (token : TokenId) (holder : KeyId) (amount : UInt64) : Edit Ledger Unit :=
  modify fun l =>
    if amount = 0 then { l with tokenBalances := l.tokenBalances.erase (token, holder) }
    else { l with
      tokenBalances := l.tokenBalances.insert (token, holder) amount
      heldTokens := l.heldTokens.add (holder, token) }

def addLock (k : TokenLock) : Edit Ledger Unit := do
  let l ← get
  let key := ((k.token, k.holder), k.expiry)
  match Word.checkedAdd ((l.tokenLocks.get? key).getD 0) k.amount with
  | none => throw (.corrupt (.lockOverflow k.holder))
  | some amount =>
    set { l with
      tokenLocks := l.tokenLocks.insert key amount
      heldTokens := l.heldTokens.add (k.holder, k.token) }

def removeLock (token : TokenId) (holder : KeyId) (expiry : Height) : Edit Ledger Unit := do
  let l ← get
  let key := ((token, holder), expiry)
  ensurePresent (.lock token holder expiry) (l.tokenLocks.contains key)
  set { l with tokenLocks := l.tokenLocks.erase key }

def setCoinBalance (address : KeyId) (amount : UInt64) : Edit Ledger Unit :=
  modify fun l =>
    if amount = 0 then { l with coinBalances := l.coinBalances.erase address }
    else { l with coinBalances := l.coinBalances.insert address amount }

instance : LedgerEdits Ledger where
  insertDelegate := insertDelegate
  addDelegateVote := addDelegateVote
  removeDelegateVote := removeDelegateVote
  insertCommittee := insertCommittee
  putCommitteeVote := putCommitteeVote
  removeCommitteeVote := removeCommitteeVote
  insertBill := insertBill
  putBallot := putBallot
  settle := settle
  insertName := insertName
  insertToken := insertToken
  setTokenBalance := setTokenBalance
  addLock := addLock
  removeLock := removeLock
  setCoinBalance := setCoinBalance
  setSynced p := modify fun l => { l with synced := some p }
  setCursor c := modify fun l => { l with cursor := some c }

end Ledger

end CivicLedger
