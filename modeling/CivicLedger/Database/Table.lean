import CivicLedger.Database.Key
import CivicLedger.State.Interface

/-!
# Tables

A database is a fixed set of named tables, each an ordered map from byte strings to byte strings.
Keys of no byte and keys of more than 511 bytes are refused.
-/

namespace CivicLedger

inductive TableName where
  | delegates
  | delegateNames
  | delegateVotes
  | delegateVoters
  | committees
  | committeeNames
  | committeeVotes
  | committeeVoters
  | bills
  | committeeBills
  | ballots
  | votedBills
  | settlements
  | dueBills
  | names
  | namedKeys
  | tokens
  | tokenAddresses
  | tokenSymbols
  | tokenBalances
  | tokenLocks
  | heldTokens
  | coinBalances
  | notes
  deriving DecidableEq, Repr

namespace TableName

def label : TableName → String
  | delegates => "delegates"
  | delegateNames => "delegate_names"
  | delegateVotes => "delegate_votes"
  | delegateVoters => "delegate_voters"
  | committees => "committees"
  | committeeNames => "committee_names"
  | committeeVotes => "committee_votes"
  | committeeVoters => "committee_voters"
  | bills => "bills"
  | committeeBills => "committee_bills"
  | ballots => "bill_votes"
  | votedBills => "voter_bills"
  | settlements => "bill_states"
  | dueBills => "bills_due"
  | names => "names"
  | namedKeys => "name_index"
  | tokens => "tokens"
  | tokenAddresses => "token_addresses"
  | tokenSymbols => "token_symbols"
  | tokenBalances => "token_balances"
  | tokenLocks => "token_locks"
  | heldTokens => "holder_tokens"
  | coinBalances => "coin_balances"
  | notes => "meta"

def index : TableName → Fin 24
  | delegates => 0
  | delegateNames => 1
  | delegateVotes => 2
  | delegateVoters => 3
  | committees => 4
  | committeeNames => 5
  | committeeVotes => 6
  | committeeVoters => 7
  | bills => 8
  | committeeBills => 9
  | ballots => 10
  | votedBills => 11
  | settlements => 12
  | dueBills => 13
  | names => 14
  | namedKeys => 15
  | tokens => 16
  | tokenAddresses => 17
  | tokenSymbols => 18
  | tokenBalances => 19
  | tokenLocks => 20
  | heldTokens => 21
  | coinBalances => 22
  | notes => 23

theorem index_injective {a b : TableName} (h : a.index = b.index) : a = b := by
  cases a <;> cases b <;> first | rfl | exact absurd h (by decide)

theorem exists_index (i : Fin 24) : ∃ t : TableName, t.index = i := by
  refine ⟨.ofNat i, ?_⟩
  revert i
  decide

end TableName

abbrev Table := SortedMap Bytes Bytes

structure Database where
  tables : Vector Table 24
  deriving DecidableEq

namespace Database

def empty : Database := ⟨Vector.replicate 24 ∅⟩

def table (db : Database) (t : TableName) : Table := db.tables[t.index]

def setTable (db : Database) (t : TableName) (content : Table) : Database :=
  ⟨db.tables.set t.index content⟩

@[simp] theorem table_empty (t : TableName) : empty.table t = ∅ := by
  simp [empty, table]

@[simp] theorem table_setTable_self (db : Database) (t : TableName) (content : Table) :
    (db.setTable t content).table t = content := by
  simp [table, setTable]

theorem table_setTable_ne (db : Database) {t u : TableName} (content : Table) (h : u ≠ t) :
    (db.setTable t content).table u = db.table u := by
  have hi : t.index.val ≠ u.index.val := fun e =>
    h (TableName.index_injective (Fin.ext e)).symm
  simp [table, setTable, hi]

theorem ext_table {db db' : Database} (h : ∀ t, db.table t = db'.table t) : db = db' := by
  obtain ⟨tables⟩ := db
  obtain ⟨tables'⟩ := db'
  congr 1
  apply Vector.ext
  intro i hi
  obtain ⟨t, ht⟩ := TableName.exists_index ⟨i, hi⟩
  have hval : t.index.val = i := congrArg Fin.val ht
  subst hval
  exact h t

def get? (db : Database) (t : TableName) (key : Bytes) : Except StoreFault (Option Bytes) :=
  if key = [] then .error .badKeySize else .ok ((db.table t).get? key)

/-- The entries whose keys begin with `start`, from the range that they fill. -/
def scan (db : Database) (t : TableName) (start : Bytes) : List (Bytes × Bytes) :=
  (db.table t).entries.filter fun e =>
    !Bytes.before e.1 start &&
      match Key.after? start with
      | some stop => Bytes.before e.1 stop
      | none => true

/-- The keys up to and including `last`. -/
def keysThrough (db : Database) (t : TableName) (last : Bytes) : List Bytes :=
  (db.table t).keys.filter fun k => !Bytes.before last k

def put (t : TableName) (key value : Bytes) : Edit Database Unit := do
  if key = [] ∨ 511 < key.length then throw .badKeySize
  modify fun db => db.setTable t ((db.table t).insert key value)

def remove (t : TableName) (key : Bytes) : Edit Database Bool := do
  if key = [] then throw .badKeySize
  let db ← get
  set (db.setTable t ((db.table t).erase key))
  return (db.table t).contains key

end Database

end CivicLedger
