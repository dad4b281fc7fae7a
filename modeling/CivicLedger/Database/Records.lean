import CivicLedger.Database.Table
import CivicLedger.State.Layout

/-!
# The ledger in tables

How the records of the ledger lie in the tables: whole records under their identities, and empty
entries under pairs of identities where only membership counts. Amounts and token numbers are
stored big-endian, names as their bytes.
-/

namespace CivicLedger.Database

def decodeWith {α : Type} (r : Reader α) (b : Bytes) : Except StoreFault α :=
  match Wire.readFront r b with
  | .ok a => .ok a
  | .error fault => .error (.unreadable (.layout fault))

def record? {α : Type} (r : Reader α) (db : Database) (t : TableName) (key : Bytes) :
    Except StoreFault (Option α) := do
  match ← db.get? t key with
  | some b => return some (← decodeWith r b)
  | none => return none

def keyId? (db : Database) (t : TableName) (key : Bytes) : Except StoreFault (Option KeyId) := do
  match ← db.get? t key with
  | some b =>
    match KeyId.ofBytes b with
    | .ok k => return some k
    | .error fault => throw (.corrupt (.storedKey fault))
  | none => return none

def word? (db : Database) (t : TableName) (key : Bytes) : Except StoreFault (Option UInt64) := do
  match ← db.get? t key with
  | some b => return some (← Key.wordAt b 0)
  | none => return none

def nameOfBytes (b : Bytes) : Except StoreFault String :=
  match Utf8.decode b with
  | .ok s => .ok s
  | .error fault => .error (.corrupt (.storedName fault))

def records {α : Type} (r : Reader α) (db : Database) (t : TableName) :
    Except StoreFault (List α) := (db.table t).values.mapM (decodeWith r)

/-- The addresses after the first twenty bytes of the keys that begin with an identity. -/
def keysAfter (db : Database) (t : TableName) (start : Bytes) : Except StoreFault (List KeyId) :=
  (db.scan t start).mapM fun e => Key.keyAt e.1 20

def billsAfter (db : Database) (t : TableName) (start : Bytes) : Except StoreFault (List BillId) :=
  (db.scan t start).mapM fun e => Key.billAt e.1 20

def cursorKey : Bytes := utf8 "apply_cursor"
def syncedKey : Bytes := utf8 "synced_block"

def lastBill : BillId := ⟨FixedBytes.fill 20 255⟩

instance : LedgerReads Database where
  delegate? db a := record? Delegate.reader db .delegates (Key.ofKey a)
  delegateNamed? db n := keyId? db .delegateNames (utf8 n)
  delegates db := records Delegate.reader db .delegates
  delegateVotesOf db v := keysAfter db .delegateVotes (Key.ofKey v)
  delegateVoters db d := keysAfter db .delegateVoters (Key.ofKey d)
  committee? db a := record? Committee.reader db .committees (Key.ofKey a)
  committeeNamed? db n := keyId? db .committeeNames (utf8 n)
  committees db := records Committee.reader db .committees
  committeeVoteOf? db v := keyId? db .committeeVotes (Key.ofKey v)
  committeeVoters db c := keysAfter db .committeeVoters (Key.ofKey c)
  bill? db b := record? Bill.reader db .bills (Key.ofBill b)
  bills db := records Bill.reader db .bills
  committeeBills db c := billsAfter db .committeeBills (Key.ofKey c)
  ballot? db b v := record? Ballot.reader db .ballots (Key.ofBill b ++ Key.ofKey v)
  ballots db b := (db.scan .ballots (Key.ofBill b)).mapM fun e => do
    let voter ← Key.keyAt e.1 20
    return (voter, ← decodeWith Ballot.reader e.2)
  billsVotedBy db v := billsAfter db .votedBills (Key.ofKey v)
  settlement? db b := record? Settlement.reader db .settlements (Key.ofBill b)
  billsDue db t := (db.keysThrough .dueBills (Key.ofDue t lastBill)).mapM fun k => Key.billAt k 8
  nameOf? db a := do
    match ← db.get? .names (Key.ofKey a) with
    | some b => return some (← nameOfBytes b)
    | none => return none
  named? db n := keyId? db .namedKeys (utf8 n)
  names db := (db.scan .names []).mapM fun e => do
    let name ← nameOfBytes e.2
    return (← Key.keyAt e.1 0, name)
  token? db t := record? Token.reader db .tokens (Key.ofToken t)
  tokenAt? db a := do return (← word? db .tokenAddresses (Key.ofKey a)).map TokenId.mk
  tokenWithSymbol? db o s := do
    return (← word? db .tokenSymbols (Key.ofKey o ++ utf8 s)).map TokenId.mk
  tokens db := records Token.reader db .tokens
  tokenBalance db t h := do return (← word? db .tokenBalances (Key.ofBalance t h)).getD 0
  tokenHolders db t := (db.scan .tokenBalances (Key.ofToken t)).mapM fun e => do
    let holder ← Key.keyAt e.1 8
    return (holder, ← Key.wordAt e.2 0)
  locksOf db t h := (db.scan .tokenLocks (Key.ofBalance t h)).mapM fun e => do
    let expiry ← Key.wordAt e.1 28
    return ⟨t, h, expiry, ← Key.wordAt e.2 0⟩
  locks db t := (db.scan .tokenLocks (Key.ofToken t)).mapM fun e => do
    let holder ← Key.keyAt e.1 8
    let expiry ← Key.wordAt e.1 28
    return ⟨t, holder, expiry, ← Key.wordAt e.2 0⟩
  tokensHeldBy db h := (db.scan .heldTokens (Key.ofKey h)).mapM fun e => do
    return ⟨← Key.wordAt e.1 20⟩
  coinBalances db := (db.scan .coinBalances []).mapM fun e => do
    let address ← Key.keyAt e.1 0
    return (address, ← Key.wordAt e.2 0)
  synced? db := record? ChainPoint.reader db .notes syncedKey
  cursor? db := record? Cursor.reader db .notes cursorKey
  nextTokenId db :=
    match (db.table .tokens).last? with
    | some (k, _) => do return (TokenId.mk (← Key.wordAt k 0)).next
    | none => .ok TokenId.first

def ensureAbsent (t : TableName) (key : Bytes) (entry : Entry) : Edit Database Unit := do
  if (← Edit.read (·.get? t key)).isSome then throw (.duplicate entry)

/-- Puts an entry that stands for membership alone. -/
def mark (t : TableName) (key : Bytes) : Edit Database Unit := put t key []

/-- Removes an entry that need not be there. -/
def discard (t : TableName) (key : Bytes) : Edit Database Unit := do
  let _ ← remove t key

def insertDelegate (d : Delegate) : Edit Database Unit := do
  ensureAbsent .delegates (Key.ofKey d.address) (.delegate d.address)
  ensureAbsent .delegateNames (utf8 d.name) (.delegateName d.name)
  put .delegates (Key.ofKey d.address) d.toBytes
  put .delegateNames (utf8 d.name) (Key.ofKey d.address)

def addDelegateVote (voter delegate : KeyId) : Edit Database Unit := do
  let forward := Key.ofKey voter ++ Key.ofKey delegate
  ensureAbsent .delegateVotes forward (.delegateVote voter delegate)
  mark .delegateVotes forward
  mark .delegateVoters (Key.ofKey delegate ++ Key.ofKey voter)

def removeDelegateVote (voter delegate : KeyId) : Edit Database Unit := do
  if ← remove .delegateVotes (Key.ofKey voter ++ Key.ofKey delegate) then
    discard .delegateVoters (Key.ofKey delegate ++ Key.ofKey voter)
  else throw (.notFound (.delegateVote voter delegate))

def insertCommittee (c : Committee) : Edit Database Unit := do
  ensureAbsent .committees (Key.ofKey c.address) (.committee c.address)
  ensureAbsent .committeeNames (utf8 c.name) (.committeeName c.name)
  put .committees (Key.ofKey c.address) c.toBytes
  put .committeeNames (utf8 c.name) (Key.ofKey c.address)

def putCommitteeVote (voter committee : KeyId) : Edit Database Unit := do
  ensureAbsent .committeeVotes (Key.ofKey voter) (.committeeVoter voter)
  put .committeeVotes (Key.ofKey voter) (Key.ofKey committee)
  mark .committeeVoters (Key.ofKey committee ++ Key.ofKey voter)

def removeCommitteeVote (voter committee : KeyId) : Edit Database Unit := do
  if (← Edit.read (LedgerReads.committeeVoteOf? · voter)) = some committee then
    discard .committeeVotes (Key.ofKey voter)
    discard .committeeVoters (Key.ofKey committee ++ Key.ofKey voter)
  else throw (.notFound (.committeeVote voter committee))

def insertBill (b : Bill) : Edit Database Unit := do
  ensureAbsent .bills (Key.ofBill b.id) (.bill b.id)
  put .bills (Key.ofBill b.id) b.toBytes
  mark .committeeBills (Key.ofKey b.committee ++ Key.ofBill b.id)
  mark .dueBills (Key.ofDue b.closes b.id)

def putBallot (bill : BillId) (voter : KeyId) (choice : UInt8) : Edit Database Unit := do
  let key := Key.ofBill bill ++ Key.ofKey voter
  ensureAbsent .ballots key (.ballot voter bill)
  put .ballots key (Ballot.mk choice none).toBytes
  mark .votedBills (Key.ofKey voter ++ Key.ofBill bill)

/-- Sets the weight of a vote that is there. -/
def weigh (bill : BillId) (voter : KeyId) (weight : UInt64) : Edit Database Unit := do
  match ← Edit.read (LedgerReads.ballot? · bill voter) with
  | none => throw (.notFound (.ballot voter bill))
  | some ballot =>
    put .ballots (Key.ofBill bill ++ Key.ofKey voter)
      { ballot with weight := some weight }.toBytes

def settle (bill : BillId) (s : Settlement) (weights : List (KeyId × UInt64)) :
    Edit Database Unit := do
  match ← Edit.read (LedgerReads.bill? · bill) with
  | none => throw (.notFound (.bill bill))
  | some b =>
    ensureAbsent .settlements (Key.ofBill bill) (.settlement bill)
    put .settlements (Key.ofBill bill) s.toBytes
    discard .dueBills (Key.ofDue b.closes bill)
    weights.forM fun (voter, weight) => weigh bill voter weight

def insertName (address : KeyId) (name : String) : Edit Database Unit := do
  ensureAbsent .names (Key.ofKey address) (.nameOf address)
  ensureAbsent .namedKeys (utf8 name) (.name name)
  put .names (Key.ofKey address) (utf8 name)
  put .namedKeys (utf8 name) (Key.ofKey address)

def insertToken (t : Token) : Edit Database Unit := do
  let symbolKey := Key.ofKey t.owner ++ utf8 t.symbol
  ensureAbsent .tokens (Key.ofToken t.id) (.token t.id)
  ensureAbsent .tokenAddresses (Key.ofKey t.address) (.tokenAddress t.address)
  ensureAbsent .tokenSymbols symbolKey (.tokenSymbol t.symbol t.owner)
  put .tokens (Key.ofToken t.id) t.toBytes
  put .tokenAddresses (Key.ofKey t.address) (Key.ofToken t.id)
  put .tokenSymbols symbolKey (Key.ofToken t.id)

def noteHolding (token : TokenId) (holder : KeyId) : Edit Database Unit :=
  mark .heldTokens (Key.ofKey holder ++ Key.ofToken token)

def setTokenBalance (token : TokenId) (holder : KeyId) (amount : UInt64) : Edit Database Unit :=
  if amount = 0 then discard .tokenBalances (Key.ofBalance token holder)
  else do
    put .tokenBalances (Key.ofBalance token holder) (Bytes.ofUInt64BE amount)
    noteHolding token holder

def addLock (k : TokenLock) : Edit Database Unit := do
  let key := Key.ofLock k.token k.holder k.expiry
  let current := (← Edit.read (word? · .tokenLocks key)).getD 0
  match Word.checkedAdd current k.amount with
  | none => throw (.corrupt (.lockOverflow k.holder))
  | some amount =>
    put .tokenLocks key (Bytes.ofUInt64BE amount)
    noteHolding k.token k.holder

def removeLock (token : TokenId) (holder : KeyId) (expiry : Height) : Edit Database Unit := do
  unless ← remove .tokenLocks (Key.ofLock token holder expiry) do
    throw (.notFound (.lock token holder expiry))

def setCoinBalance (address : KeyId) (amount : UInt64) : Edit Database Unit :=
  if amount = 0 then discard .coinBalances (Key.ofKey address)
  else put .coinBalances (Key.ofKey address) (Bytes.ofUInt64BE amount)

instance : LedgerEdits Database where
  insertDelegate := insertDelegate
  addDelegateVote := addDelegateVote
  removeDelegateVote := removeDelegateVote
  insertCommittee := insertCommittee
  putCommitteeVote := putCommitteeVote
  removeCommitteeVote := removeCommitteeVote
  insertBill := insertBill
  putBallot := putBallot
  settle := settle
  insertName := insertName
  insertToken := insertToken
  setTokenBalance := setTokenBalance
  addLock := addLock
  removeLock := removeLock
  setCoinBalance := setCoinBalance
  setSynced p := put .notes syncedKey p.toBytes
  setCursor c := put .notes cursorKey c.toBytes

end CivicLedger.Database
