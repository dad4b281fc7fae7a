import CivicLedger.Host.Logging
import CivicLedger.Network
import CivicLedger.Toml.Document
import CivicLedger.Toml.Quote

/-!
# Settings

What a node is started with. Settings are read from a TOML document, in which each may be missing
and unknown ones are passed over, and are written as one. The fees are those of the network and
cannot be set.
-/

namespace CivicLedger

structure Settings where
  network : Network
  dataDir : String
  /-- How many bytes the ledger's database may take. -/
  mapSize : UInt64
  servesRequests : Bool
  /-- Zero stands for the port of the network. -/
  port : UInt16
  /-- How many seconds the wallet may take over a submission. -/
  submissionTimeout : UInt64
  /-- How many blocks may wait to be applied. -/
  queueCapacity : UInt64
  logFormat : LogFormat
  logLevel : String
  servesMetrics : Bool
  deriving DecidableEq, Repr

namespace Settings

def ofNetwork (n : Network) : Settings where
  network := n
  dataDir := "./agora_data"
  mapSize := 1073741824
  servesRequests := true
  port := 0
  submissionTimeout := 30
  queueCapacity := 64
  logFormat := .human
  logLevel := "info"
  servesMetrics := false

def effectivePort (s : Settings) : UInt16 := if s.port = 0 then s.network.port else s.port

def fees (s : Settings) : FeeSchedule := s.network.fees

def text? : Toml → Option String
  | .text s => some s
  | _ => none

def flag? : Toml → Option Bool
  | .flag b => some b
  | _ => none

def word? : Toml → Option UInt64
  | .integer (.ofNat n) => Word.ofNat? n
  | _ => none

def port? : Toml → Option UInt16
  | .integer (.ofNat n) => if n < UInt16.size then some (UInt16.ofNat n) else none
  | _ => none

def isEmpty : Toml → Bool
  | .table _ [] => true
  | .array [] => true
  | _ => false

/-- One of several names: as a text, or as the only field of a table, with nothing in it. -/
def choice? {α : Type} (ofName? : String → Option α) : Toml → Option α
  | .text s => ofName? s
  | .table _ [(name, v)] => if isEmpty v then ofName? name else none
  | _ => none

/-- The value of a field, or the default where it is missing. -/
def fieldOr {α : Type} (fields : Toml.Fields) (name : String) (default : α)
    (f : Toml → Option α) : Option α :=
  match fields.lookup name with
  | some v => f v
  | none => some default

def ofFields? (fields : Toml.Fields) : Option Settings := do
  let d := ofNetwork .dev
  return {
    network := ← fieldOr fields "network" d.network (choice? Network.ofName?)
    dataDir := ← fieldOr fields "data_dir" d.dataDir text?
    mapSize := ← fieldOr fields "lmdb_map_size" d.mapSize word?
    servesRequests := ← fieldOr fields "enable_rpc" d.servesRequests flag?
    port := ← fieldOr fields "rpc_port" d.port port?
    submissionTimeout := ← fieldOr fields "submission_timeout_secs" d.submissionTimeout word?
    queueCapacity := ← fieldOr fields "block_queue_capacity" d.queueCapacity word?
    logFormat := ← fieldOr fields "log_format" d.logFormat (choice? LogFormat.ofName?)
    logLevel := ← fieldOr fields "log_level" d.logLevel text?
    servesMetrics := ← fieldOr fields "enable_metrics" d.servesMetrics flag? }

def ofDocument? (document : String) : Option Settings := do
  ofFields? (← Toml.fieldsOf? document)

def flagText (b : Bool) : String := if b then "true" else "false"

def wordText? (n : UInt64) : Option String :=
  if n.toNat < UInt64.size / 2 then some (toString n.toNat) else none

def fieldTexts? (s : Settings) : Option (List (String × String)) := do
  return [
    ("network", Toml.quote s.network.name),
    ("data_dir", Toml.quote s.dataDir),
    ("lmdb_map_size", ← wordText? s.mapSize),
    ("enable_rpc", flagText s.servesRequests),
    ("rpc_port", toString s.port.toNat),
    ("submission_timeout_secs", ← wordText? s.submissionTimeout),
    ("block_queue_capacity", ← wordText? s.queueCapacity),
    ("log_format", Toml.quote s.logFormat.name),
    ("log_level", Toml.quote s.logLevel),
    ("enable_metrics", flagText s.servesMetrics)]

def lines? (s : Settings) : Option (List String) := do
  return (← s.fieldTexts?).map fun e => e.1 ++ " = " ++ e.2

def document? (s : Settings) : Option String := do
  return String.join ((← s.lines?).map (· ++ "\n"))

end Settings

end CivicLedger
