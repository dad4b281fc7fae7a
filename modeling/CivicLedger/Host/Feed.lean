import CivicLedger.Json.Fields
import CivicLedger.Node.Sync
import CivicLedger.Text.Blank

/-!
# The chain feed

Confirmed blocks come as lines of JSON, a block to a line, with payloads and addresses in
hexadecimal digits and the coin balances that the block changed. Transactions are numbered from
zero in the order of their line. A feed is read up to its first faulty line.
-/

namespace CivicLedger

inductive FeedFault where
  | malformed
  | badPayload (height : Height) (index : Nat)
  | badSender (height : Height) (index : Nat) (fault : IdentityFault)
  | badAddress (height : Height) (fault : IdentityFault)
  deriving DecidableEq, Repr

def FeedFault.message : FeedFault → String
  | malformed => "malformed feed line"
  | badPayload height index =>
    "block " ++ toString height.toNat ++ " tx " ++ toString index ++ ": payload is not hex"
  | badSender height index fault =>
    "block " ++ toString height.toNat ++ " tx " ++ toString index ++ ": " ++
      KeyId.faultMessage fault
  | badAddress height fault =>
    "block " ++ toString height.toNat ++ ": " ++ KeyId.faultMessage fault

namespace Feed

structure RawTx where
  payload : String
  sender : String
  fee : UInt64
  deriving DecidableEq, Repr

structure RawBlock where
  height : Height
  time : Timestamp
  txs : List RawTx
  /-- In the order of the addresses as written. -/
  balances : SortedMap String UInt64
  deriving DecidableEq

def rawTx? (t : Json.Tree) : Option RawTx := do
  let f ← Json.fieldsOf? ["payload", "sender", "fee"] t
  return ⟨← Json.field? f "payload" Json.asText?, ← Json.field? f "sender" Json.asText?,
    ← Json.fieldOr f "fee" 0 Json.asWord?⟩

def rawBlock? (t : Json.Tree) : Option RawBlock := do
  let f ← Json.fieldsOf? ["height", "time", "txs", "balances"] t
  let balances ← Json.fieldOr f "balances" [] (Json.asEntries? Json.asWord?)
  return ⟨← Json.field? f "height" Json.asWord?, ← Json.field? f "time" Json.asWord?,
    ← Json.fieldOr f "txs" [] (Json.asList? rawTx?), SortedMap.ofList balances⟩

/-- Adds transactions, of which the first has the given number in its line. -/
def addTxs : Nat → List RawTx → Block → Except FeedFault Block
  | _, [], b => .ok b
  | index, tx :: rest, b =>
    match Hex.decode tx.payload, KeyId.ofText tx.sender with
    | .error _, _ => .error (.badPayload b.height index)
    | .ok _, .error fault => .error (.badSender b.height index fault)
    | .ok payload, .ok sender => addTxs (index + 1) rest (b.withTx payload sender tx.fee)

def change (height : Height) (e : String × UInt64) : Except FeedFault (KeyId × UInt64) :=
  match KeyId.ofText e.1 with
  | .ok address => .ok (address, e.2)
  | .error fault => .error (.badAddress height fault)

def ofRaw (raw : RawBlock) : Except FeedFault Update := do
  let block ← addTxs 0 raw.txs ⟨raw.height, raw.time, []⟩
  return ⟨block, ← raw.balances.entries.mapM (change raw.height)⟩

def ofLine (line : List Char) : Except FeedFault Update :=
  match Json.Tree.ofChars? line >>= rawBlock? with
  | some raw => ofRaw raw
  | none => .error .malformed

/-- The lines of a text without their ends; `line` has the characters before it in reverse. -/
def linesFrom : List Char → List Char → List (List Char)
  | line, [] => [line.reverse]
  | line, c :: rest =>
    if c = '\n' then line.reverse :: linesFrom [] rest else linesFrom (c :: line) rest

def lines (text : String) : List (List Char) :=
  (linesFrom [] text.toList).filter fun l => !l.all Text.isBlank

/-- The updates before the first faulty line, and its fault. -/
def readLines : List (List Char) → List Update × Option FeedFault
  | [] => ([], none)
  | line :: rest =>
    match ofLine line with
    | .error fault => ([], some fault)
    | .ok u => ((u :: (readLines rest).1), (readLines rest).2)

def read (text : String) : List Update × Option FeedFault := readLines (lines text)

end Feed

end CivicLedger
