import CivicLedger.Host.Feed
import CivicLedger.Interchange.Basic
import CivicLedger.Node.Wallet

/-!
# The outbox

A file in which requests wait for the wallet, one to a line. Requests are numbered from one each
time the outbox is opened, and known by a hash over the number and all of the request. A write may
fail and leave a part of its line: its number is used up, and the next line goes behind the part.
-/

namespace CivicLedger

structure OutboxEntry where
  id : TxId
  request : Request
  deriving DecidableEq

namespace OutboxEntry

def fields (e : OutboxEntry) : List (String × Json) :=
  [("id", Interchange.ofTx e.id), ("payload", Interchange.ofBytes e.request.payload),
   ("fee", .nat e.request.fee), ("from", Interchange.ofKey e.request.sender)]

def line (e : OutboxEntry) : String := Json.print (.object e.fields)

def ofLine? (line : String) : Option OutboxEntry := do
  let v ← Json.ofText? line
  let id ← FixedBytes.ofBytes? 32 (← Interchange.bytes? (v.get "id"))
  let payload ← Interchange.bytes? (v.get "payload")
  let fee ← (v.get "fee").word?
  let sender ← Interchange.key? (v.get "from")
  return ⟨⟨id⟩, ⟨payload, fee, sender⟩⟩

end OutboxEntry

/-- An open outbox: the text of its file, and how many requests it has numbered. -/
structure Outbox where
  text : List Char
  served : UInt64
  deriving DecidableEq

namespace Outbox

/-- What becomes of a line that is written: all of it is in the file, or only so many characters
from its front. -/
inductive Write where
  | whole
  /-- The fault is told when the line is written. -/
  | refused (kept : Nat) (reason : String)
  /-- The fault is told when the file is flushed, which ends the session. -/
  | broken (kept : Nat)
  deriving DecidableEq

namespace Write

def part (line : List Char) : Write → List Char
  | whole => line
  | refused kept _ => line.take kept
  | broken kept => line.take kept

def reply (id : TxId) : Write → Wallet.Reply
  | whole => .taken id
  | refused _ reason => .refused (.unavailable ("outbox write failed: " ++ reason))
  | broken _ => .none

end Write

def fingerprint (number : UInt64) (r : Request) : Bytes :=
  Bytes.ofUInt64LE number ++ r.sender.bytes.val ++ Bytes.ofUInt64LE r.fee ++ r.payload

def requestId (number : UInt64) (r : Request) : TxId := ⟨Blake2b.hash (fingerprint number r)⟩

/-- Opens the outbox over what its file holds. -/
def resume (text : List Char) : Outbox := ⟨text, 0⟩

def entryOf (o : Outbox) (r : Request) : OutboxEntry := ⟨requestId (o.served + 1) r, r⟩

def send (o : Outbox) (r : Request) (w : Write) : Wallet.Reply × Outbox :=
  let e := o.entryOf r
  (w.reply e.id, ⟨o.text ++ w.part (e.line.toList ++ ['\n']), o.served + 1⟩)

/-- Serves requests with what becomes of their lines, up to one that ends the session. -/
def serve : List (Request × Write) → Outbox → List Wallet.Reply × Outbox
  | [], o => ([], o)
  | (r, w) :: rest, o =>
    match o.send r w with
    | (.none, o) => ([.none], o)
    | (reply, o) =>
      let (replies, o) := serve rest o
      (reply :: replies, o)

def identity? : Wallet.Reply → Option TxId
  | .taken id => some id
  | _ => none

def sendAll (requests : List Request) (o : Outbox) : List TxId × Outbox :=
  let (replies, o) := serve (requests.map fun r => (r, .whole)) o
  (replies.filterMap identity?, o)

def lines (text : List Char) : List (List Char) :=
  (Feed.linesFrom [] text).filter fun l => !l.isEmpty

def told (text : List Char) : List OutboxEntry :=
  (lines text).filterMap fun l => OutboxEntry.ofLine? (String.ofList l)

def entries (o : Outbox) : List OutboxEntry := told o.text

def absent : WalletFault :=
  .unavailable "no outbox configured; start the node with --outbox"

end Outbox

end CivicLedger
