import CivicLedger.Host.CommandLine
import CivicLedger.Host.Feed
import CivicLedger.Host.Machine
import CivicLedger.Node.Replay
import CivicLedger.State.Inventory

/-!
# The program

Carries out what a command line asks for. The exit code is 0, or 1 after a fault, or 2 where the
command line makes no sense. A ledger that has been opened is saved with all that was applied to it,
also where a fault follows.
-/

namespace CivicLedger

inductive RunFault where
  | badSettings (path : String)
  | unwritableSettings
  | badLogFilter (filter : String)
  | badLedgerPlace (path : String)
  | badMapSize (bytes : UInt64)
  | node (fault : NodeFault)
  | damagedLedger
  | badFeed (path : String)
  | feed (fault : FeedFault)
  | badOutbox (path : String)
  deriving DecidableEq

def RunFault.message : RunFault → String
  | badSettings path => "loading config " ++ path
  | unwritableSettings => "the settings cannot be written"
  | badLogFilter filter => "invalid log filter: " ++ filter
  | badLedgerPlace path => "no ledger can be kept at " ++ path
  | badMapSize bytes => "a database cannot have " ++ toString bytes.toNat ++ " bytes"
  | node fault => fault.message
  | damagedLedger => "ledger database is damaged"
  | badFeed path => "opening chain feed " ++ path
  | feed fault => fault.message
  | badOutbox path => "opening outbox " ++ path

namespace Program

variable {m : Type → Type} [Monad m] [Machine m]

abbrev Work (m : Type → Type) (α : Type) := ExceptT RunFault m α

def printLines : List String → m Unit
  | [] => return
  | line :: rest => do
    Machine.printLine line
    printLines rest

def baseSettings (options : List Argument) : Work m Settings :=
  match CommandLine.configOf? options with
  | none => return .ofNetwork .dev
  | some path => do
    match ← Machine.file path with
    | .text document =>
      match Settings.ofDocument? document with
      | some s => return s
      | none => throw (.badSettings path)
    | _ => throw (.badSettings path)

def settings (options : List Argument) : Work m Settings := do
  return options.foldl Argument.apply (← baseSettings options)

/-- The filter of the log: a valid one in the environment goes before that of the settings. -/
def checkLogFilter (env : CommandLine.Environment) (s : Settings) : Work m Unit :=
  if ((env "RUST_LOG").map LogFilter.isValid).getD false || LogFilter.isValid s.logLevel then
    return
  else throw (.badLogFilter s.logLevel)

def pageSize : UInt64 := 4096

/-- A database takes whole pages, and a new one takes seven. Zero leaves the size to itself. -/
def isMapSize (isNew : Bool) (bytes : UInt64) : Bool :=
  bytes % pageSize = 0 && (!isNew || bytes = 0 || 7 * pageSize ≤ bytes)

def database (s : Settings) (place : LedgerPlace) (takesOccupied : Bool) :
    Except RunFault Database :=
  let fresh := if isMapSize true s.mapSize then .ok .empty else .error (.badMapSize s.mapSize)
  match place with
  | .vacant => fresh
  | .occupied => if takesOccupied then fresh else .error (.badLedgerPlace s.dataDir)
  | .ledger db => if isMapSize false s.mapSize then .ok db else .error (.badMapSize s.mapSize)
  | .unusable => .error (.badLedgerPlace s.dataDir)

def orFault {ε α : Type} (f : ε → RunFault) (r : Except ε α) : Work m α :=
  match r with
  | .ok a => return a
  | .error e => throw (f e)

def openNode (s : Settings) : Work m (Node Database) := do
  let db ← orFault id (database s (← Machine.ledgerAt s.dataDir) false)
  let node ← orFault .node (Node.ofDatabase db)
  Machine.saveLedger s.dataDir node.store
  return node

def feedContent (source : String) : m FileContent :=
  if source = "-" then do return .text (← Machine.input)
  else Machine.file source

/-- Follows a feed to its end. A line or a block that cannot be taken ends it, and is no fault of
the program. -/
def follow (s : Settings) (source : String) (outbox : Option String) : Work m Unit := do
  let node ← openNode s
  let updates ← match ← feedContent source with
    | .absent => throw (.badFeed source)
    | .unreadable => pure []
    | .text t => pure (Feed.read t).1
  Machine.saveLedger s.dataDir (node.follow s.fees updates).node.store
  match outbox with
  | some path => unless ← Machine.touch path do throw (.badOutbox path)
  | none => return

def verify (s : Settings) : Work m Unit := do
  let db ← orFault id (database s (← Machine.ledgerAt s.dataDir) true)
  let db ← orFault (fun fault => .node (.schema fault)) (Database.open? db)
  Machine.saveLedger s.dataDir db
  let r := db.health
  Machine.printLine
    ("checked " ++ toString r.tables ++ " databases, " ++ toString r.entries ++ " entries")
  printLines (r.mismatches.map fun e => "  error: " ++ e.message)
  if r.isHealthy then Machine.printLine "ledger database is healthy" else throw .damagedLedger

def inventory (db : Database) : Work m Inventory :=
  orFault (fun fault => .node (.store fault)) (Inventory.collect db)

def digestLine (v : Inventory) : String := "digest  " ++ Hex.encode v.digest.val

def cursorLine : Option Cursor → String
  | some c =>
    "cursor  height " ++ toString c.height.toNat ++ " next tx " ++ toString c.nextTx.toNat
  | none => "cursor  none (empty ledger)"

def digest (s : Settings) : Work m Unit := do
  let node ← openNode s
  let v ← inventory node.store
  let cursor ← orFault (fun fault => .node (.store fault)) (LedgerReads.cursor? node.store)
  Machine.printLine (digestLine v)
  Machine.printLine (cursorLine cursor)
  printLines (Json.printLines (v.counts.labelled.map fun e => (e.1, .nat (UInt64.ofNat e.2))))

def summaryLine (r : Chain.ReplaySummary) (elapsed : UInt64) : String :=
  "replayed " ++ toString r.blocks ++ " blocks (" ++ toString r.skipped ++
    " already applied): " ++ toString r.applied ++ " applied, " ++ toString r.refused ++
    " rejected, " ++ toString r.malformed ++ " malformed, " ++ toString r.unrecognized ++
    " unrecognized, " ++ toString r.settled ++ " bills finalized in " ++ describeDuration elapsed

/-- Applies a whole feed, of which every line must be an update. -/
def replay (s : Settings) (source : String) : Work m Unit := do
  let node ← openNode s
  let .text t ← feedContent source | throw (.badFeed source)
  let (updates, fault) := Feed.read t
  match fault with
  | some fault => throw (.feed fault)
  | none =>
    let start ← Machine.seconds
    let r := node.replay s.fees updates
    Machine.saveLedger s.dataDir r.node.store
    let summary ← orFault .node r.result
    Machine.printLine (summaryLine summary ((← Machine.seconds) - start))
    Machine.printLine (digestLine (← inventory r.node.store))

def writeSettings (s : Settings) : Work m Unit :=
  match s.lines? with
  | some lines => printLines lines
  | none => throw .unwritableSettings

def perform (s : Settings) : Command → Work m Unit
  | .run source outbox => follow s source outbox
  | .verify => verify s
  | .digest => digest s
  | .replay source => replay s source
  | .config => writeSettings s

def invoke (env : CommandLine.Environment) (i : Invocation) : Work m Unit := do
  let s ← settings i.options
  checkLogFilter env s
  perform s i.command

def usage : String :=
  "usage: agora-daemon [options] " ++
    "(node run | ledger verify | ledger digest | ledger replay | config)"

/-- Runs the program and answers its exit code. -/
def run (args : List String) (env : CommandLine.Environment) : m UInt32 :=
  match CommandLine.read args env with
  | .help => do
    Machine.printLine usage
    return 0
  | .wrong => do
    Machine.complain usage
    return 2
  | .done i => do
    match ← (invoke env i : Work m Unit).run with
    | .ok () => return 0
    | .error fault =>
      Machine.complain fault.message
      return 1

end Program

end CivicLedger
