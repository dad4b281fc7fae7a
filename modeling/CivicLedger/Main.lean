import CivicLedger.Database.Image
import CivicLedger.Host.Program

/-!
# The executable

Runs the program on the files, streams and environment of the process. A ledger is kept as an image
of its database in a file of its directory.
-/

namespace CivicLedger

def imageName : String := "ledger.image"

def imagePath (path : String) : String := path ++ "/" ++ imageName

def variableNames : List String :=
  "RUST_LOG" ::
    (CommandLine.Options.ofProgram.fallbacks ++ CommandLine.Options.ofRun.fallbacks).map Prod.fst

def readContent (path : String) : IO FileContent := do
  try
    return .text (← IO.FS.readFile path)
  catch
    | .noFileOrDirectory .. => return .absent
    | _ => return .unreadable

def readPlace (path : String) : IO LedgerPlace := do
  if path = "" then return .unusable
  try
    let entries ← (← IO.FS.realPath path).readDir
    if entries.isEmpty then return .vacant
    if entries.any (·.fileName = imageName) then
      match Database.ofImage? (← IO.FS.readBinFile (imagePath path)).toList with
      | some db => return .ledger db
      | none => return .unusable
    return .occupied
  catch
    | .noFileOrDirectory .. => return .vacant
    | _ => return .unusable

def appendNothing (path : String) : IO Bool := do
  try
    let h ← IO.FS.Handle.mk path .append
    h.flush
    return true
  catch _ => return false

instance : Machine IO where
  file := readContent
  input := do return (← (← IO.getStdin).readToEnd)
  printLine line := IO.println line
  complain line := IO.eprintln line
  ledgerAt := readPlace
  saveLedger path db := do
    IO.FS.createDirAll path
    IO.FS.writeBinFile (imagePath path) ⟨db.image.toArray⟩
  touch := appendNothing
  seconds := do return UInt64.ofNat ((← IO.monoMsNow) / 1000)

end CivicLedger

def main (args : List String) : IO UInt32 := do
  let found ← CivicLedger.variableNames.mapM fun name => do
    return (name, ← IO.getEnv name)
  CivicLedger.Program.run args fun name => (found.lookup name).join
