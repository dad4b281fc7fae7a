import CivicLedger.Database.Upkeep

/-!
# The machine

What the program needs of the machine that it runs on: files, a place for the ledger's database, an
input, an output, and a clock.
-/

namespace CivicLedger

inductive FileContent where
  | absent
  /-- There, but not a text. -/
  | unreadable
  | text (s : String)
  deriving DecidableEq, Repr

inductive LedgerPlace where
  /-- Nothing, or an empty directory. -/
  | vacant
  | ledger (db : Database)
  /-- A directory that has other things in it and no ledger. -/
  | occupied
  /-- No directory can be there. -/
  | unusable
  deriving DecidableEq

class Machine (m : Type → Type) where
  file : String → m FileContent
  /-- All of the input. -/
  input : m String
  printLine : String → m Unit
  /-- Writes a line where complaints go. -/
  complain : String → m Unit
  ledgerAt : String → m LedgerPlace
  saveLedger : String → Database → m Unit
  /-- Makes sure that a file is there and can be appended to. -/
  touch : String → m Bool
  /-- The seconds of a clock that never goes back. -/
  seconds : m UInt64

instance {ε : Type} {m : Type → Type} [Monad m] [Machine m] : Machine (ExceptT ε m) where
  file path := ExceptT.lift (Machine.file path)
  input := ExceptT.lift Machine.input
  printLine line := ExceptT.lift (Machine.printLine line)
  complain line := ExceptT.lift (Machine.complain line)
  ledgerAt path := ExceptT.lift (Machine.ledgerAt path)
  saveLedger path db := ExceptT.lift (Machine.saveLedger path db)
  touch path := ExceptT.lift (Machine.touch path)
  seconds := ExceptT.lift Machine.seconds

end CivicLedger
