import CivicLedger.Host.Settings

/-!
# The command line

A command line is a list of options, a command, and the command's own options. An option stands
before its command and at most once; its value is the next argument or follows an equals sign. What
is not given is taken from the environment. Help is asked for in place of anything.
-/

namespace CivicLedger

inductive Argument where
  | network (n : Network)
  | dataDir (path : String)
  | disableRpc (isSet : Bool)
  | rpcPort (port : UInt16)
  | metrics (isSet : Bool)
  | submissionTimeout (seconds : UInt64)
  | logLevel (level : String)
  | logFormat (format : LogFormat)
  | config (path : String)
  | feed (source : String)
  | outbox (path : String)
  deriving DecidableEq, Repr

namespace Argument

def name : Argument → String
  | network _ => "network"
  | dataDir _ => "data-dir"
  | disableRpc _ => "disable-rpc"
  | rpcPort _ => "rpc-port"
  | metrics _ => "metrics"
  | submissionTimeout _ => "submission-timeout"
  | logLevel _ => "log-level"
  | logFormat _ => "log-format"
  | config _ => "config"
  | feed _ => "feed"
  | outbox _ => "outbox"

def path? (s : String) : Option String := if s = "" then none else some s

def flag? (s : String) : Option Bool :=
  if s = "true" then some true else if s = "false" then some false else none

/-- A port in digits; a sign may stand before them. -/
def port? (s : String) : Option UInt16 := do
  let n ← match s.toList with
    | '-' :: rest => do
      let n ← Text.wordOfDigits? rest
      if n = 0 then some n else none
    | l => Text.word? l
  if n.toNat < UInt16.size then some n.toUInt16 else none

def read? (name value : String) : Option Argument :=
  match name with
  | "network" => (Network.parse value).toOption.map network
  | "data-dir" => (path? value).map dataDir
  | "disable-rpc" => (flag? value).map disableRpc
  | "rpc-port" => (port? value).map rpcPort
  | "metrics" => (flag? value).map metrics
  | "submission-timeout" => (Text.word? value.toList).map submissionTimeout
  | "log-level" => some (logLevel value)
  | "log-format" => (LogFormat.parse value).toOption.map logFormat
  | "config" => (path? value).map config
  | "feed" => some (feed value)
  | "outbox" => (path? value).map outbox
  | _ => none

def apply (s : Settings) : Argument → Settings
  | network n => { s with network := n }
  | dataDir path => { s with dataDir := path }
  | disableRpc isSet => { s with servesRequests := s.servesRequests && !isSet }
  | rpcPort port => { s with port := port }
  | metrics isSet => { s with servesMetrics := s.servesMetrics || isSet }
  | submissionTimeout seconds => { s with submissionTimeout := seconds }
  | logLevel level => { s with logLevel := level }
  | logFormat format => { s with logFormat := format }
  | _ => s

end Argument

inductive Command where
  | run (feed : String) (outbox : Option String)
  | verify
  | digest
  | replay (feed : String)
  | config
  deriving DecidableEq, Repr

structure Invocation where
  options : List Argument
  command : Command
  deriving DecidableEq, Repr

inductive Reading (α : Type) where
  | help
  | wrong
  | done (a : α)
  deriving DecidableEq, Repr

namespace Reading

def ofOption {α : Type} : Option α → Reading α
  | some a => done a
  | none => wrong

def bind {α β : Type} (r : Reading α) (f : α → Reading β) : Reading β :=
  match r with
  | help => help
  | wrong => wrong
  | done a => f a

instance : Monad Reading where
  pure := done
  bind := bind

end Reading

namespace CommandLine

/-- Variables of the environment, each with the option that it stands in for. -/
abbrev Fallbacks := List (String × String)

abbrev Environment := String → Option String

structure Options where
  flags : List String
  valued : List String
  fallbacks : Fallbacks
  deriving DecidableEq, Repr

namespace Options

def ofProgram : Options where
  flags := ["disable-rpc", "metrics"]
  valued :=
    ["network", "data-dir", "rpc-port", "submission-timeout", "log-level", "log-format", "config"]
  fallbacks :=
    [("AGORA_NETWORK", "network"), ("AGORA_DATA_DIR", "data-dir"),
     ("AGORA_DISABLE_RPC", "disable-rpc"), ("AGORA_RPC_PORT", "rpc-port"),
     ("AGORA_ENABLE_METRICS", "metrics"), ("AGORA_SUBMISSION_TIMEOUT", "submission-timeout"),
     ("AGORA_LOG_LEVEL", "log-level"), ("AGORA_LOG_FORMAT", "log-format")]

def ofRun : Options := ⟨[], ["feed", "outbox"], [("AGORA_OUTBOX", "outbox")]⟩

def ofReplay : Options := ⟨[], ["feed"], []⟩

def empty : Options := ⟨[], [], []⟩

end Options

/-- The options read so far. The last one is kept as it stands until something follows it. -/
structure Given where
  options : List Argument
  open? : Option (String × String)
  deriving DecidableEq, Repr

namespace Given

def empty : Given := ⟨[], none⟩

def has (options : List Argument) (name : String) : Bool := options.any (·.name = name)

/-- Adds an option, unless it is given already or does not take the value. -/
def add? (name value : String) (options : List Argument) : Option (List Argument) := do
  if has options name then none
  return options ++ [← Argument.read? name value]

def close? (g : Given) : Option (List Argument) :=
  match g.open? with
  | none => some g.options
  | some (name, value) => add? name value g.options

end Given

inductive Shape where
  | word
  /-- A name after two hyphens, and what follows an equals sign. -/
  | long (name : List Char) (value? : Option (List Char))
  /-- Letters after one hyphen. -/
  | short (letters : List Char)
  | separator
  deriving DecidableEq, Repr

def shape : List Char → Shape
  | ['-'] => .word
  | ['-', '-'] => .separator
  | '-' :: '-' :: rest =>
    match rest.span (· ≠ '=') with
    | (name, _ :: value) => .long name (some value)
    | (name, []) => .long name none
  | '-' :: letters => .short letters
  | _ => .word

/-- Options up to the first word, with the arguments from it on. -/
def readOptions (o : Options) : List String → Given → Reading (Given × List String)
  | [], g => .done (g, [])
  | arg :: rest, g =>
    match shape arg.toList with
    | .word => .done (g, arg :: rest)
    | .separator => if rest.isEmpty then .done (g, []) else .wrong
    | .short letters => do
      let _ ← Reading.ofOption g.close?
      if letters.head? = some 'h' then .help else .wrong
    | .long name value? => do
      let name := String.ofList name
      let options ← Reading.ofOption g.close?
      if name ∈ o.valued then
        match value?, rest with
        | some value, rest =>
          let options ← Reading.ofOption (Given.add? name (String.ofList value) options)
          readOptions o rest ⟨options, none⟩
        | none, value :: rest =>
          if shape value.toList = .word then readOptions o rest ⟨options, some (name, value)⟩
          else .wrong
        | none, [] => .wrong
      else if value?.isSome then .wrong
      else if name ∈ o.flags then
        let options ← Reading.ofOption (Given.add? name "true" options)
        readOptions o rest ⟨options, none⟩
      else if name = "help" then .help
      else .wrong

def complete? (o : Options) (env : Environment) (options : List Argument) :
    Option (List Argument) :=
  o.fallbacks.foldlM (fun options e =>
    match env e.1 with
    | some value =>
      if Given.has options e.2 then some options else Given.add? e.2 value options
    | none => some options) options

def finish (o : Options) (env : Environment) (g : Given) : Reading (List Argument) :=
  Reading.ofOption (g.close? >>= complete? o env)

/-- A command's own options, which no word may follow. -/
def readLast (o : Options) (env : Environment) (args : List String) : Reading (List Argument) := do
  let (g, rest) ← readOptions o args .empty
  if rest.isEmpty then finish o env g else .wrong

/-- Where the feed comes from; a hyphen stands for the input. -/
def feedOf (options : List Argument) : String :=
  (options.findSome? fun | .feed source => some source | _ => none).getD "-"

def outboxOf? (options : List Argument) : Option String :=
  options.findSome? fun | .outbox path => some path | _ => none

def configOf? (options : List Argument) : Option String :=
  options.findSome? fun | .config path => some path | _ => none

def readCommand (env : Environment) : List String → Reading Command
  | "node" :: "run" :: rest => do
    let options ← readLast .ofRun env rest
    return .run (feedOf options) (outboxOf? options)
  | "ledger" :: "verify" :: rest => do
    let _ ← readLast .empty env rest
    return .verify
  | "ledger" :: "digest" :: rest => do
    let _ ← readLast .empty env rest
    return .digest
  | "ledger" :: "replay" :: rest => do return .replay (feedOf (← readLast .ofReplay env rest))
  | "config" :: rest => do
    let _ ← readLast .empty env rest
    return .config
  | _ => .wrong

def topics : List (List String) :=
  [[], ["help"], ["node"], ["node", "run"], ["node", "help"], ["ledger"], ["ledger", "verify"],
   ["ledger", "digest"], ["ledger", "replay"], ["ledger", "help"], ["config"]]

def readTopic (topic : List String) : Reading Command := if topic ∈ topics then .help else .wrong

/-- A command or a question for help. Options may stand between the words of a command, but only
help is one. -/
def readWords (env : Environment) : List String → Reading Command
  | "help" :: topic => readTopic topic
  | word :: rest =>
    if word = "node" ∨ word = "ledger" then do
      match ← readOptions .empty rest .empty with
      | (_, "help" :: topic) => readTopic (word :: topic)
      | (_, rest) => readCommand env (word :: rest)
    else readCommand env (word :: rest)
  | [] => .wrong

def read (args : List String) (env : Environment) : Reading Invocation := do
  let (g, rest) ← readOptions .ofProgram args .empty
  let command ← readWords env rest
  return ⟨← finish .ofProgram env g, command⟩

end CommandLine

end CivicLedger
