import CivicLedger.Database.Table
import CivicLedger.Wire

/-!
# Images of a database

A database as one byte string: its tables one after another, each with its entries in the order of
their keys.
-/

namespace CivicLedger.Database

def ofEntry (e : Bytes × Bytes) : Bytes :=
  Wire.ofLength e.1.length ++ e.1 ++ Wire.ofLength e.2.length ++ e.2

def image (db : Database) : Bytes :=
  db.tables.toList.flatMap fun t => Wire.ofList ofEntry t.entries

def readBytes : Reader Bytes := do Wire.take (← Wire.number 8) .endOfData

def readEntry : Reader (Bytes × Bytes) := do return (← readBytes, ← readBytes)

def readTables : Reader (List Table) :=
  Wire.times (do return SortedMap.ofList (← Wire.list readEntry)) 24

def ofImage? (b : Bytes) : Option Database := do
  let tables ← (Wire.readAll readTables b).toOption
  if h : tables.length = 24 then return ⟨⟨tables.toArray, by simpa using h⟩⟩ else none

end CivicLedger.Database
