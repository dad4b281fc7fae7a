import CivicLedger.Database.Upkeep
import CivicLedger.Proofs.Database.Coded
import CivicLedger.State.Ledger
import CivicLedger.Proofs.State.Layout

/-!
# A database that holds a ledger

A database holds a ledger if each of its tables is the corresponding map of the ledger written as
bytes, and its notes give the cursor, the block of the coin balances and the schema. Every read of
such a database gives what the ledger gives.
-/

namespace CivicLedger

/-- Two stores that answer every read alike, but for names of no byte, which tables do not take. -/
structure Alike {σ τ : Type} [LedgerReads σ] [LedgerReads τ] (s : σ) (t : τ) : Prop where
  delegate? : ∀ a, LedgerReads.delegate? s a = LedgerReads.delegate? t a
  delegateNamed? : ∀ n, n ≠ "" → LedgerReads.delegateNamed? s n = LedgerReads.delegateNamed? t n
  delegates : LedgerReads.delegates s = LedgerReads.delegates t
  delegateVotesOf : ∀ v, LedgerReads.delegateVotesOf s v = LedgerReads.delegateVotesOf t v
  delegateVoters : ∀ d, LedgerReads.delegateVoters s d = LedgerReads.delegateVoters t d
  committee? : ∀ a, LedgerReads.committee? s a = LedgerReads.committee? t a
  committeeNamed? : ∀ n, n ≠ "" → LedgerReads.committeeNamed? s n = LedgerReads.committeeNamed? t n
  committees : LedgerReads.committees s = LedgerReads.committees t
  committeeVoteOf? : ∀ v, LedgerReads.committeeVoteOf? s v = LedgerReads.committeeVoteOf? t v
  committeeVoters : ∀ c, LedgerReads.committeeVoters s c = LedgerReads.committeeVoters t c
  bill? : ∀ b, LedgerReads.bill? s b = LedgerReads.bill? t b
  bills : LedgerReads.bills s = LedgerReads.bills t
  committeeBills : ∀ c, LedgerReads.committeeBills s c = LedgerReads.committeeBills t c
  ballot? : ∀ b v, LedgerReads.ballot? s b v = LedgerReads.ballot? t b v
  ballots : ∀ b, LedgerReads.ballots s b = LedgerReads.ballots t b
  billsVotedBy : ∀ v, LedgerReads.billsVotedBy s v = LedgerReads.billsVotedBy t v
  settlement? : ∀ b, LedgerReads.settlement? s b = LedgerReads.settlement? t b
  billsDue : ∀ time, LedgerReads.billsDue s time = LedgerReads.billsDue t time
  nameOf? : ∀ a, LedgerReads.nameOf? s a = LedgerReads.nameOf? t a
  named? : ∀ n, n ≠ "" → LedgerReads.named? s n = LedgerReads.named? t n
  names : LedgerReads.names s = LedgerReads.names t
  token? : ∀ id, LedgerReads.token? s id = LedgerReads.token? t id
  tokenAt? : ∀ a, LedgerReads.tokenAt? s a = LedgerReads.tokenAt? t a
  tokenWithSymbol? : ∀ o n, LedgerReads.tokenWithSymbol? s o n = LedgerReads.tokenWithSymbol? t o n
  tokens : LedgerReads.tokens s = LedgerReads.tokens t
  tokenBalance : ∀ id h, LedgerReads.tokenBalance s id h = LedgerReads.tokenBalance t id h
  tokenHolders : ∀ id, LedgerReads.tokenHolders s id = LedgerReads.tokenHolders t id
  locksOf : ∀ id h, LedgerReads.locksOf s id h = LedgerReads.locksOf t id h
  locks : ∀ id, LedgerReads.locks s id = LedgerReads.locks t id
  tokensHeldBy : ∀ h, LedgerReads.tokensHeldBy s h = LedgerReads.tokensHeldBy t h
  coinBalances : LedgerReads.coinBalances s = LedgerReads.coinBalances t
  synced? : LedgerReads.synced? s = LedgerReads.synced? t
  cursor? : LedgerReads.cursor? s = LedgerReads.cursor? t
  nextTokenId : LedgerReads.nextTokenId s = LedgerReads.nextTokenId t

namespace Database

open SortedMap Wire

def noValue : Unit → Bytes := fun _ => []

/-- The entries of each table for a ledger. The notes are apart. -/
def rows (l : Ledger) : TableName → List (Bytes × Bytes)
  | .delegates => coded Key.ofKey Delegate.toBytes l.delegates
  | .delegateNames => coded utf8 Key.ofKey l.delegateNames
  | .delegateVotes => coded (fun k => Key.ofKey k.1 ++ Key.ofKey k.2) noValue l.delegateVotes
  | .delegateVoters => coded (fun k => Key.ofKey k.1 ++ Key.ofKey k.2) noValue l.delegateVoters
  | .committees => coded Key.ofKey Committee.toBytes l.committees
  | .committeeNames => coded utf8 Key.ofKey l.committeeNames
  | .committeeVotes => coded Key.ofKey Key.ofKey l.committeeVotes
  | .committeeVoters => coded (fun k => Key.ofKey k.1 ++ Key.ofKey k.2) noValue l.committeeVoters
  | .bills => coded Key.ofBill Bill.toBytes l.bills
  | .committeeBills => coded (fun k => Key.ofKey k.1 ++ Key.ofBill k.2) noValue l.committeeBills
  | .ballots => coded (fun k => Key.ofBill k.1 ++ Key.ofKey k.2) Ballot.toBytes l.ballots
  | .votedBills => coded (fun k => Key.ofKey k.1 ++ Key.ofBill k.2) noValue l.votedBills
  | .settlements => coded Key.ofBill Settlement.toBytes l.settlements
  | .dueBills => coded (fun k => Key.ofDue k.1 k.2) noValue l.dueBills
  | .names => coded Key.ofKey utf8 l.names
  | .namedKeys => coded utf8 Key.ofKey l.namedKeys
  | .tokens => coded Key.ofToken Token.toBytes l.tokens
  | .tokenAddresses => coded Key.ofKey Key.ofToken l.tokenAddresses
  | .tokenSymbols => coded (fun k => Key.ofKey k.1 ++ utf8 k.2) Key.ofToken l.tokenSymbols
  | .tokenBalances => coded (fun k => Key.ofBalance k.1 k.2) Bytes.ofUInt64BE l.tokenBalances
  | .tokenLocks => coded (fun k => Key.ofLock k.1.1 k.1.2 k.2) Bytes.ofUInt64BE l.tokenLocks
  | .heldTokens => coded (fun k => Key.ofKey k.1 ++ Key.ofToken k.2) noValue l.heldTokens
  | .coinBalances => coded Key.ofKey Bytes.ofUInt64BE l.coinBalances
  | .notes => []

def noted (l : Ledger) (key : Bytes) : Option Bytes :=
  if key = cursorKey then l.cursor.map Cursor.toBytes
  else if key = syncedKey then l.synced.map ChainPoint.toBytes
  else if key = utf8 schemaKey then some (Bytes.ofUInt32LE currentSchema)
  else none

/-- A ledger whose records can be read back, with tokens under their own numbers. -/
structure Legible (l : Ledger) : Prop where
  delegates : ∀ a d, l.delegates.get? a = some d → d.Fits
  committees : ∀ a c, l.committees.get? a = some c → c.Fits
  bills : ∀ id b, l.bills.get? id = some b → b.Fits
  settlements : ∀ id s, l.settlements.get? id = some s → s.Fits
  tokens : ∀ id t, l.tokens.get? id = some t → t.Fits ∧ t.id = id

structure Mirrors (l : Ledger) (db : Database) : Prop where
  tables : ∀ t, t ≠ .notes → (db.table t).entries = rows l t
  notes : ∀ key, (db.table .notes).get? key = noted l key
  legible : Legible l

theorem ne_nil_of_length {b : Bytes} {n : Nat} (h : b.length = n + 1) : b ≠ [] := by
  rintro rfl
  cases h

theorem ofKey_ne_nil (k : KeyId) : Key.ofKey k ≠ [] := ne_nil_of_length (length_ofKey k)
theorem ofBill_ne_nil (b : BillId) : Key.ofBill b ≠ [] := ne_nil_of_length (length_ofBill b)
theorem ofToken_ne_nil (t : TokenId) : Key.ofToken t ≠ [] := ne_nil_of_length (length_ofToken t)

theorem utf8_ne_nil {s : String} (h : s ≠ "") : utf8 s ≠ [] := by
  intro hnil
  have hempty : utf8 "" = [] := rfl
  exact h (utf8_injective (hnil.trans hempty.symm))

theorem take_part {a b : Bytes} {n k : Nat} (ha : a.length = n) (hb : b.length = k)
    (rest : Bytes) :
    ((a ++ (b ++ rest)).drop n).take k = b := by
  rw [List.drop_left' ha, List.take_left' hb]

theorem take_last {a b : Bytes} {n k : Nat} (ha : a.length = n) (hb : b.length = k) :
    ((a ++ b).drop n).take k = b := by
  have h := take_part ha hb []
  rwa [List.append_nil] at h

theorem keyAt_of_part {b : Bytes} {n : Nat} {k : KeyId}
    (h : (b.drop n).take 20 = Key.ofKey k) : Key.keyAt b n = .ok k := by
  have hbytes : FixedBytes.ofBytes? 20 (Key.ofKey k) = some k.bytes := FixedBytes.ofBytes?_val _
  unfold Key.keyAt
  rw [h, hbytes]

theorem billAt_of_part {b : Bytes} {n : Nat} {id : BillId}
    (h : (b.drop n).take 20 = Key.ofBill id) : Key.billAt b n = .ok id := by
  have hbytes : FixedBytes.ofBytes? 20 (Key.ofBill id) = some id.bytes := FixedBytes.ofBytes?_val _
  unfold Key.billAt
  rw [h, hbytes]

theorem wordAt_of_part {b : Bytes} {n : Nat} {x : UInt64}
    (h : (b.drop n).take 8 = Bytes.ofUInt64BE x) : Key.wordAt b n = .ok x := by
  have hbytes : FixedBytes.ofBytes? 8 (Bytes.ofUInt64BE x) =
      some ⟨Bytes.ofUInt64BE x, Bytes.length_ofUInt64BE x⟩ := dif_pos _
  unfold Key.wordAt
  rw [h, hbytes]
  simp only [Bytes.toNatBE_ofUInt64BE, UInt64.ofNat_toNat]

section Last

variable {a : Bytes} {n : Nat}

theorem keyAt_last (h : a.length = n) (k : KeyId) : Key.keyAt (a ++ Key.ofKey k) n = .ok k :=
  keyAt_of_part (take_last h (length_ofKey k))

theorem billAt_last (h : a.length = n) (id : BillId) : Key.billAt (a ++ Key.ofBill id) n = .ok id :=
  billAt_of_part (take_last h (length_ofBill id))

theorem wordAt_last (h : a.length = n) (x : UInt64) :
    Key.wordAt (a ++ Bytes.ofUInt64BE x) n = .ok x :=
  wordAt_of_part (take_last h (Bytes.length_ofUInt64BE x))

end Last

theorem keyAt_zero (k : KeyId) : Key.keyAt (Key.ofKey k) 0 = .ok k := keyAt_last (a := []) rfl k

theorem wordAt_zero (x : UInt64) : Key.wordAt (Bytes.ofUInt64BE x) 0 = .ok x :=
  wordAt_last (a := []) rfl x

theorem wordAt_token (t : TokenId) : Key.wordAt (Key.ofToken t) 0 = .ok t.number :=
  wordAt_zero t.number

theorem keyOfBytes_ofKey (k : KeyId) : KeyId.ofBytes (Key.ofKey k) = .ok k := by
  have hbytes : FixedBytes.ofBytes? 20 (Key.ofKey k) = some k.bytes := FixedBytes.ofBytes?_val _
  unfold KeyId.ofBytes identityOfBytes
  rw [hbytes]
  rfl

theorem nameOfBytes_utf8 (s : String) : nameOfBytes (utf8 s) = .ok s := by
  unfold nameOfBytes
  rw [Utf8.decode_utf8]

theorem decodeWith_of_reads {α : Type} {r : Reader α} {b : Bytes} {a : α} (h : Reads r b a) :
    decodeWith r b = .ok a := by
  unfold decodeWith
  rw [h.readFront]

section Reads

variable {κ α : Type} [KeyOrder κ] {db : Database} {t : TableName} {key : κ → Bytes}

theorem get?_ok {k : Bytes} (h : k ≠ []) : db.get? t k = .ok ((db.table t).get? k) := if_neg h

theorem record?_of_coded {val : α → Bytes} {m : SortedMap κ α} {r : Reader α} (hk : KeyCode key)
    (h : (db.table t).entries = coded key val m)
    (hr : ∀ k a, m.get? k = some a → Wire.Reads r (val a) a) {k : κ} (hne : key k ≠ []) :
    record? r db t (key k) = .ok (m.get? k) := by
  unfold record?
  rw [get?_ok hne, get?_of_coded hk h]
  cases hm : m.get? k with
  | none => rfl
  | some a =>
    have hread := decodeWith_of_reads (hr k a hm)
    simp only [Option.map_some, bind, Except.bind, hread]
    rfl

theorem keyId?_of_coded {m : SortedMap κ KeyId} (hk : KeyCode key)
    (h : (db.table t).entries = coded key Key.ofKey m) {k : κ} (hne : key k ≠ []) :
    keyId? db t (key k) = .ok (m.get? k) := by
  unfold keyId?
  rw [get?_ok hne, get?_of_coded hk h]
  cases hm : m.get? k with
  | none => rfl
  | some a =>
    simp only [Option.map_some, bind, Except.bind, keyOfBytes_ofKey]
    rfl

theorem word?_of_coded {m : SortedMap κ α} (word : α → UInt64) (hk : KeyCode key)
    (h : (db.table t).entries = coded key (fun a => Bytes.ofUInt64BE (word a)) m) {k : κ}
    (hne : key k ≠ []) : word? db t (key k) = .ok ((m.get? k).map word) := by
  unfold word?
  rw [get?_ok hne, get?_of_coded hk h]
  cases hm : m.get? k with
  | none => rfl
  | some a =>
    simp only [Option.map_some, bind, Except.bind, wordAt_zero]
    rfl

theorem records_of_coded {val : α → Bytes} {m : SortedMap κ α} {r : Reader α}
    (h : (db.table t).entries = coded key val m)
    (hr : ∀ k a, m.get? k = some a → Wire.Reads r (val a) a) :
    records r db t = .ok m.values := by
  have hall : ∀ l : List α, (∀ a ∈ l, Wire.Reads r (val a) a) →
      (l.map val).mapM (decodeWith r) = .ok l := by
    intro l hl
    induction l with
    | nil => rfl
    | cons a l ih =>
      have hrest := ih fun x hx => hl x (List.mem_cons_of_mem a hx)
      rw [List.map_cons, List.mapM_cons, decodeWith_of_reads (hl a List.mem_cons_self), hrest]
      rfl
  unfold records
  rw [values_of_coded h]
  refine hall m.values fun a ha => ?_
  obtain ⟨k, hk⟩ := mem_values.mp ha
  exact hr k a hk

theorem keysAfter_of_coded {s : SortedSet (KeyId × KeyId)}
    (h : (db.table t).entries = coded (fun k => Key.ofKey k.1 ++ Key.ofKey k.2) noValue s)
    (k : KeyId) : keysAfter db t (Key.ofKey k) = .ok (Ledger.pairedWith s k) :=
  mapM_scan_within (g := fun x _ => x) code_key length_ofKey h k fun x _ _ =>
    keyAt_last (length_ofKey k) x

theorem billsAfter_of_coded {s : SortedSet (KeyId × BillId)}
    (h : (db.table t).entries = coded (fun k => Key.ofKey k.1 ++ Key.ofBill k.2) noValue s)
    (k : KeyId) : billsAfter db t (Key.ofKey k) = .ok (Ledger.pairedWith s k) :=
  mapM_scan_within (g := fun x _ => x) code_key length_ofKey h k fun x _ _ =>
    billAt_last (length_ofKey k) x

/-- No bill identity comes after the last one. -/
theorem before_lastBill (id : BillId) :
    Bytes.before (Key.ofBill lastBill) (Key.ofBill id) = false := by
  have hfill : ∀ b : Bytes, Bytes.before (List.replicate b.length 255) b = false := by
    intro b
    induction b with
    | nil => rfl
    | cons x b ih =>
      have hx : ¬ (255 : UInt8) < x := by
        rw [UInt8.lt_iff_toNat_lt, Nat.not_lt]
        exact Nat.le_of_lt_succ x.toNat_lt
      rw [List.length_cons, List.replicate_succ, Bytes.before, if_neg hx, ih, ite_self]
  have h := hfill (Key.ofBill id)
  rwa [length_ofBill] at h

/-- Up to the last bill of a time are the bills of that time and of those before. -/
theorem not_before_ofDue_lastBill (time closes : Timestamp) (id : BillId) :
    (!Bytes.before (Key.ofDue time lastBill) (Key.ofDue closes id)) = decide (closes ≤ time) := by
  unfold Key.ofDue
  rw [Bytes.before_append (by simp), before_lastBill, Bool.and_false, Bool.or_false,
    Bytes.before_ofUInt64BE]
  change (!decide (time < closes)) = decide (closes ≤ time)
  rw [← decide_not]
  exact decide_eq_decide.mpr UInt64.not_lt

end Reads

namespace Mirrors

variable {l : Ledger} {db : Database}

theorem billsDue (h : Mirrors l db) (time : Timestamp) :
    LedgerReads.billsDue db time = .ok (l.billsDue time) := by
  have hdue := h.tables .dueBills (by decide)
  have hkeys : (db.table .dueBills).keys =
      l.dueBills.entries.map fun e => Key.ofDue e.1.1 e.1.2 := by
    unfold SortedMap.keys
    rw [hdue, rows, coded, List.map_map]
    rfl
  change ((db.table .dueBills).keys.filter _).mapM _ = _
  refine mapM_filter hkeys ?_ ?_
  · intro e _ hp
    rw [not_before_ofDue_lastBill] at hp
    exact ⟨e.1.2, if_pos (of_decide_eq_true hp), billAt_last (Bytes.length_ofUInt64BE _) e.1.2⟩
  · intro e _ hp
    rw [not_before_ofDue_lastBill] at hp
    exact if_neg (of_decide_eq_false hp)

theorem nameOf? (h : Mirrors l db) (a : KeyId) :
    LedgerReads.nameOf? db a = .ok (l.names.get? a) := by
  have hget := get?_of_coded code_key (h.tables .names (by decide)) a
  change (db.get? .names (Key.ofKey a) >>= _) = _
  rw [get?_ok (ofKey_ne_nil a), hget]
  cases l.names.get? a with
  | none => rfl
  | some n =>
    simp only [Option.map_some, bind, Except.bind, nameOfBytes_utf8]
    rfl

theorem names (h : Mirrors l db) : LedgerReads.names db = .ok l.names.entries := by
  have hscan := mapM_scan_all (g := fun e => e) (h.tables .names (by decide))
    (f := fun e => do
      let name ← nameOfBytes e.2
      return (← Key.keyAt e.1 0, name)) fun e _ => by
    rw [nameOfBytes_utf8]
    simp only [bind, Except.bind, keyAt_zero]
    rfl
  rwa [List.map_id'] at hscan

theorem coinBalances (h : Mirrors l db) :
    LedgerReads.coinBalances db = .ok l.coinBalances.entries := by
  have hscan := mapM_scan_all (g := fun e => e) (h.tables .coinBalances (by decide))
    (f := fun e => do
      let address ← Key.keyAt e.1 0
      return (address, ← Key.wordAt e.2 0)) fun e _ => by
    simp only [bind, Except.bind, keyAt_zero, wordAt_zero]
    rfl
  rwa [List.map_id'] at hscan

theorem ballots (h : Mirrors l db) (b : BillId) :
    LedgerReads.ballots db b = .ok (l.ballots.within b) := by
  have hscan := mapM_scan_within (g := fun x a => (x, a)) code_bill length_ofBill
    (h.tables .ballots (by decide)) b
    (f := fun e => do
      let voter ← Key.keyAt e.1 20
      return (voter, ← decodeWith Ballot.reader e.2)) fun x a _ => by
    have hkey : Key.keyAt (Key.ofBill b ++ Key.ofKey x) 20 = .ok x :=
      keyAt_last (length_ofBill b) x
    simp only [bind, Except.bind, hkey, decodeWith_of_reads (Ballot.reads a)]
    rfl
  rwa [List.map_id'] at hscan

theorem tokenHolders (h : Mirrors l db) (t : TokenId) :
    LedgerReads.tokenHolders db t = .ok (l.tokenBalances.within t) := by
  have hscan := mapM_scan_within (g := fun x a => (x, a)) code_token length_ofToken
    (h.tables .tokenBalances (by decide)) t
    (f := fun e => do
      let holder ← Key.keyAt e.1 8
      return (holder, ← Key.wordAt e.2 0)) fun x a _ => by
    have hkey : Key.keyAt (Key.ofToken t ++ Key.ofKey x) 8 = .ok x :=
      keyAt_last (length_ofToken t) x
    simp only [bind, Except.bind, hkey, wordAt_zero]
    rfl
  rwa [List.map_id'] at hscan

theorem locksOf (h : Mirrors l db) (t : TokenId) (holder : KeyId) :
    LedgerReads.locksOf db t holder = .ok (l.locksOf t holder) :=
  mapM_scan_within (g := fun x a => TokenLock.mk t holder x a) code_balance
    (fun k => length_ofBalance k.1 k.2)
    (h.tables .tokenLocks (by decide)) (t, holder) fun x a _ => by
    have hword : Key.wordAt (Key.ofBalance t holder ++ Bytes.ofUInt64BE x) 28 = .ok x :=
      wordAt_last (length_ofBalance t holder) x
    simp only [bind, Except.bind, hword, wordAt_zero]
    rfl

theorem locks (h : Mirrors l db) (t : TokenId) :
    LedgerReads.locks db t = .ok (l.locks t) := by
  have hstart : ∀ k : (TokenId × KeyId) × Height,
      (Key.ofToken t).isPrefixOf (Key.ofLock k.1.1 k.1.2 k.2) = decide (k.1.1 = t) := by
    intro k
    unfold Key.ofLock Key.ofBalance
    rw [List.append_assoc]
    exact code_token.isPrefixOf_append length_ofToken t k.1.1 _
  have hcoded : (db.table .tokenLocks).entries = coded (fun k => Key.ofLock k.1.1 k.1.2 k.2)
      Bytes.ofUInt64BE l.tokenLocks := h.tables .tokenLocks (by decide)
  refine mapM_scan hcoded ?_ ?_
  · rintro ⟨⟨⟨t', holder⟩, x⟩, a⟩ _ hp
    rw [hstart] at hp
    obtain rfl : t' = t := of_decide_eq_true hp
    refine ⟨⟨t', holder, x, a⟩, by simp, ?_⟩
    have hkey : Key.keyAt (Key.ofLock t' holder x) 8 = .ok holder := by
      refine keyAt_of_part ?_
      unfold Key.ofLock Key.ofBalance
      rw [List.append_assoc]
      exact take_part (length_ofToken t') (length_ofKey holder) _
    have hword : Key.wordAt (Key.ofLock t' holder x) 28 = .ok x :=
      wordAt_last (length_ofBalance t' holder) x
    simp only [bind, Except.bind, hkey, hword, wordAt_zero]
    rfl
  · intro e _ hp
    rw [hstart] at hp
    exact if_neg (of_decide_eq_false hp)

theorem tokensHeldBy (h : Mirrors l db) (holder : KeyId) :
    LedgerReads.tokensHeldBy db holder = .ok (Ledger.pairedWith l.heldTokens holder) :=
  mapM_scan_within (g := fun x _ => x) code_key length_ofKey (h.tables .heldTokens (by decide))
    holder fun x a _ => by
    have hword : Key.wordAt (Key.ofKey holder ++ Key.ofToken x) 20 = .ok x.number :=
      wordAt_last (length_ofKey holder) x.number
    simp only [bind, Except.bind, hword]
    rfl

theorem nextTokenId (h : Mirrors l db) :
    LedgerReads.nextTokenId db = .ok l.nextTokenId := by
  have hlast := last?_of_coded (h.tables .tokens (by decide))
  simp only [LedgerReads.nextTokenId]
  rw [hlast]
  unfold Ledger.nextTokenId
  cases hl : l.tokens.last? with
  | none => rfl
  | some e =>
    have hid := (h.legible.tokens e.1 e.2 (get?_of_mem (List.mem_of_getLast? hl))).2
    simp only [Option.map_some, bind, Except.bind, wordAt_token, hid]
    rfl

theorem cursor? (h : Mirrors l db) : LedgerReads.cursor? db = .ok l.cursor := by
  change record? Cursor.reader db .notes cursorKey = _
  have hne : cursorKey ≠ [] := utf8_ne_nil (by decide)
  unfold record?
  have hnoted : noted l cursorKey = l.cursor.map Cursor.toBytes := rfl
  rw [get?_ok hne, h.notes, hnoted]
  cases l.cursor with
  | none => rfl
  | some c =>
    simp only [Option.map_some, bind, Except.bind, decodeWith_of_reads (Cursor.reads c)]
    rfl

theorem synced? (h : Mirrors l db) : LedgerReads.synced? db = .ok l.synced := by
  change record? ChainPoint.reader db .notes syncedKey = _
  have hne : syncedKey ≠ [] := utf8_ne_nil (by decide)
  unfold record?
  have hnoted : noted l syncedKey = l.synced.map ChainPoint.toBytes := rfl
  rw [get?_ok hne, h.notes, hnoted]
  cases l.synced with
  | none => rfl
  | some p =>
    simp only [Option.map_some, bind, Except.bind, decodeWith_of_reads (ChainPoint.reads p)]
    rfl

theorem tokenAt? (h : Mirrors l db) (a : KeyId) :
    LedgerReads.tokenAt? db a = .ok (l.tokenAddresses.get? a) := by
  have hword := word?_of_coded TokenId.number code_key
    (h.tables .tokenAddresses (by decide)) (ofKey_ne_nil a)
  change (word? db .tokenAddresses (Key.ofKey a) >>= _) = _
  rw [hword]
  cases l.tokenAddresses.get? a <;> rfl

theorem tokenWithSymbol? (h : Mirrors l db) (o : KeyId) (s : String) :
    LedgerReads.tokenWithSymbol? db o s = .ok (l.tokenSymbols.get? (o, s)) := by
  have hne : Key.ofKey o ++ utf8 s ≠ [] := List.append_ne_nil_of_left_ne_nil (ofKey_ne_nil o) _
  have hword := word?_of_coded TokenId.number (k := (o, s)) code_keyText
    (h.tables .tokenSymbols (by decide)) hne
  change (word? db .tokenSymbols (Key.ofKey o ++ utf8 s) >>= _) = _
  rw [hword]
  cases l.tokenSymbols.get? (o, s) <;> rfl

theorem tokenBalance (h : Mirrors l db) (t : TokenId) (holder : KeyId) :
    LedgerReads.tokenBalance db t holder = .ok ((l.tokenBalances.get? (t, holder)).getD 0) := by
  have hne : Key.ofBalance t holder ≠ [] := ne_nil_of_length (length_ofBalance t holder)
  have hword := word?_of_coded (fun a => a) (k := (t, holder)) code_balance
    (h.tables .tokenBalances (by decide)) hne
  change (word? db .tokenBalances (Key.ofBalance t holder) >>= _) = _
  rw [hword]
  cases l.tokenBalances.get? (t, holder) <;> rfl

/-- A database that holds a ledger answers every read as the ledger does. -/
theorem alike (h : Mirrors l db) : Alike l db where
  delegate? a := (record?_of_coded code_key (h.tables .delegates (by decide))
    (fun k d hd => Delegate.reads (h.legible.delegates k d hd)) (ofKey_ne_nil a)).symm
  delegateNamed? _ hn :=
    (keyId?_of_coded code_text (h.tables .delegateNames (by decide)) (utf8_ne_nil hn)).symm
  delegates := (records_of_coded (h.tables .delegates (by decide))
    fun k d hd => Delegate.reads (h.legible.delegates k d hd)).symm
  delegateVotesOf v := (keysAfter_of_coded (h.tables .delegateVotes (by decide)) v).symm
  delegateVoters d := (keysAfter_of_coded (h.tables .delegateVoters (by decide)) d).symm
  committee? a := (record?_of_coded code_key (h.tables .committees (by decide))
    (fun k c hc => Committee.reads (h.legible.committees k c hc)) (ofKey_ne_nil a)).symm
  committeeNamed? _ hn :=
    (keyId?_of_coded code_text (h.tables .committeeNames (by decide)) (utf8_ne_nil hn)).symm
  committees := (records_of_coded (h.tables .committees (by decide))
    fun k c hc => Committee.reads (h.legible.committees k c hc)).symm
  committeeVoteOf? v :=
    (keyId?_of_coded code_key (h.tables .committeeVotes (by decide)) (ofKey_ne_nil v)).symm
  committeeVoters c := (keysAfter_of_coded (h.tables .committeeVoters (by decide)) c).symm
  bill? b := (record?_of_coded code_bill (h.tables .bills (by decide))
    (fun k x hx => Bill.reads (h.legible.bills k x hx)) (ofBill_ne_nil b)).symm
  bills := (records_of_coded (h.tables .bills (by decide))
    fun k x hx => Bill.reads (h.legible.bills k x hx)).symm
  committeeBills c := (billsAfter_of_coded (h.tables .committeeBills (by decide)) c).symm
  ballot? b v := (record?_of_coded (k := (b, v)) code_billKey (h.tables .ballots (by decide))
    (fun _ x _ => Ballot.reads x)
    (List.append_ne_nil_of_left_ne_nil (ofBill_ne_nil b) _)).symm
  ballots b := (h.ballots b).symm
  billsVotedBy v := (billsAfter_of_coded (h.tables .votedBills (by decide)) v).symm
  settlement? b := (record?_of_coded code_bill (h.tables .settlements (by decide))
    (fun k x hx => Settlement.reads (h.legible.settlements k x hx)) (ofBill_ne_nil b)).symm
  billsDue time := (h.billsDue time).symm
  nameOf? a := (h.nameOf? a).symm
  named? _ hn :=
    (keyId?_of_coded code_text (h.tables .namedKeys (by decide)) (utf8_ne_nil hn)).symm
  names := h.names.symm
  token? id := (record?_of_coded code_token (h.tables .tokens (by decide))
    (fun k x hx => Token.reads (h.legible.tokens k x hx).1) (ofToken_ne_nil id)).symm
  tokenAt? a := (h.tokenAt? a).symm
  tokenWithSymbol? o s := (h.tokenWithSymbol? o s).symm
  tokens := (records_of_coded (h.tables .tokens (by decide))
    fun k x hx => Token.reads (h.legible.tokens k x hx).1).symm
  tokenBalance t holder := (h.tokenBalance t holder).symm
  tokenHolders t := (h.tokenHolders t).symm
  locksOf t holder := (h.locksOf t holder).symm
  locks t := (h.locks t).symm
  tokensHeldBy holder := (h.tokensHeldBy holder).symm
  coinBalances := h.coinBalances.symm
  synced? := h.synced?.symm
  cursor? := h.cursor?.symm
  nextTokenId := h.nextTokenId.symm

end Mirrors

/-- A ledger is held by one database only. -/
theorem Mirrors.unique {l : Ledger} {db db' : Database} (h : Mirrors l db) (h' : Mirrors l db') :
    db = db' := by
  apply ext_table
  intro t
  by_cases ht : t = .notes
  · subst ht
    apply ext
    intro key
    rw [h.notes, h'.notes]
  · have hentries := (h.tables t ht).trans (h'.tables t ht).symm
    generalize db.table t = m, db'.table t = m' at hentries
    cases m
    cases m'
    cases hentries
    rfl

end Database

end CivicLedger
