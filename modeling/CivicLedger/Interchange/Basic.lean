import CivicLedger.Json.Access
import CivicLedger.State.Record

/-!
# Values of the ledger as JSON

Identities and byte strings are texts of hexadecimal digits; numbers, tokens and places are whole
numbers; what is missing is null.
-/

namespace CivicLedger.Interchange

def ofKey (k : KeyId) : Json := .text k.text
def ofBill (b : BillId) : Json := .text b.text
def ofTx (t : TxId) : Json := .text t.text
def ofTokenId (t : TokenId) : Json := .nat t.number
def ofBytes (b : Bytes) : Json := .text (Hex.encode b)
def ofByte (b : UInt8) : Json := .nat b.toUInt64
def ofIndex (i : UInt32) : Json := .nat i.toUInt64
def ofCount (n : Nat) : Json := .nat (UInt64.ofNat n)

def ofOption {α : Type} (f : α → Json) : Option α → Json
  | some a => f a
  | none => .null

def ofList {α : Type} (f : α → Json) (l : List α) : Json := .array (l.map f)

def ofPair {α β : Type} (f : α → Json) (g : β → Json) (p : α × β) : Json := .array [f p.1, g p.2]

def ofPoint (p : ChainPoint) : Json := .object [("height", .nat p.height), ("time", .nat p.time)]

def ofCursor (c : Cursor) : Json := .array [.nat c.height, ofIndex c.nextTx]

def ofHoldings (l : List (KeyId × UInt64)) : Json := ofList (ofPair ofKey .nat) l

def key? (v : Json) : Option KeyId := do (KeyId.ofText (← v.text?)).toOption
def bill? (v : Json) : Option BillId := do (BillId.ofText (← v.text?)).toOption
def bytes? (v : Json) : Option Bytes := do (Hex.decode (← v.text?)).toOption
def token? (v : Json) : Option TokenId := do return ⟨← v.word?⟩
def byte? (v : Json) : Option UInt8 := do return (← v.word?).toUInt8

def point? (v : Json) : Option ChainPoint := do
  return ⟨← (v.get "height").word?, ← (v.get "time").word?⟩

def holdings? : Json → Option (List (KeyId × UInt64)) :=
  Json.orDefault? [] (Json.listOf? (Json.pairOf? key? Json.word?))

end CivicLedger.Interchange
