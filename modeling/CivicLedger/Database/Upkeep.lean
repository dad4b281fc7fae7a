import CivicLedger.Database.Records

/-!
# Upkeep of the tables

Notes beside the ledger, the schema version that a database was written with, and the check that
every index has as many entries as the table it belongs to.
-/

namespace CivicLedger.Database

def putNote (key : String) (value : Bytes) : Edit Database Unit := put .notes (utf8 key) value

def note (db : Database) (key : String) : Except StoreFault Bytes := do
  match ← db.get? .notes (utf8 key) with
  | some b => return b
  | none => throw (.notFound (.note key))

def schemaKey : String := "schema_version"

def currentSchema : UInt32 := 2

def schemaVersion (db : Database) : Except StoreFault UInt32 := do
  match ← db.get? .notes (utf8 schemaKey) with
  | some b =>
    match FixedBytes.ofBytes? 4 b with
    | some f => return UInt32.ofNat (Bytes.toNatLE f.val)
    | none => throw (.unreadable .schemaVersion)
  | none => return 0

def setSchemaVersion (version : UInt32) : Edit Database Unit :=
  putNote schemaKey (Bytes.ofUInt32LE version)

inductive SchemaFault where
  | newer (stored : UInt32)
  | store (fault : StoreFault)
  deriving DecidableEq

def SchemaFault.message : SchemaFault → String
  | .newer stored =>
    "schema error: ledger was written with schema " ++ toString stored.toNat ++
      "; this build reads up to " ++ toString currentSchema.toNat
  | .store fault => "schema error: " ++ fault.message

/-- Opens a database: an older schema is brought up to the current one, a newer one is refused. -/
def open? (db : Database) : Except SchemaFault Database :=
  match db.schemaVersion with
  | .error fault => .error (.store fault)
  | .ok stored =>
    if currentSchema < stored then .error (.newer stored)
    else if stored = currentSchema then .ok db
    else
      match setSchemaVersion currentSchema db with
      | .ok _ db => .ok db
      | .error fault _ => .error (.store fault)

/-- Tables and the indexes that have an entry for each of theirs. -/
def indexPairs : List (TableName × TableName) :=
  [(.delegates, .delegateNames), (.delegateVotes, .delegateVoters), (.committees, .committeeNames),
   (.committeeVotes, .committeeVoters), (.bills, .committeeBills), (.ballots, .votedBills),
   (.names, .namedKeys), (.tokens, .tokenAddresses), (.tokens, .tokenSymbols)]

structure IndexMismatch where
  primary : TableName
  primarySize : Nat
  index : TableName
  indexSize : Nat
  deriving DecidableEq, Repr

def IndexMismatch.message (m : IndexMismatch) : String :=
  "index '" ++ m.index.label ++ "' has " ++ toString m.indexSize ++ " entries but '" ++
    m.primary.label ++ "' has " ++ toString m.primarySize

structure HealthReport where
  tables : Nat
  entries : Nat
  mismatches : List IndexMismatch
  deriving DecidableEq, Repr

def HealthReport.isHealthy (r : HealthReport) : Bool := r.mismatches.isEmpty

def mismatch? (db : Database) (e : TableName × TableName) : Option IndexMismatch :=
  let primarySize := (db.table e.1).size
  let indexSize := (db.table e.2).size
  if primarySize = indexSize then none else some ⟨e.1, primarySize, e.2, indexSize⟩

def health (db : Database) : HealthReport where
  tables := db.tables.size
  entries := (db.tables.toList.flatMap SortedMap.entries).length
  mismatches := indexPairs.filterMap db.mismatch?

end CivicLedger.Database
