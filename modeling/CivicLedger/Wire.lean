import CivicLedger.Bytes.Utf8
import CivicLedger.Bytes.Word
import CivicLedger.Identity

/-!
# The byte layout of payloads and records

Numbers are little-endian and of fixed width. A text is its length in bytes as eight bytes and then
its UTF-8 bytes; a list is its length and then its members; an optional value is a byte 0, or a byte
1 and the value. A reader takes bytes from the front and says what it missed.
-/

namespace CivicLedger

inductive WireFault where
  /-- The bytes end inside a number, a length or an identity. -/
  | endOfData
  /-- A text is longer than the bytes left. -/
  | shortText
  | badText (fault : Utf8Fault)
  | badFlag (byte : UInt8)
  | badOptionTag (byte : UInt8)
  | trailing
  deriving DecidableEq, Repr

def WireFault.message : WireFault → String
  | .endOfData => "io error: unexpected end of file"
  | .shortText => "io error: "
  | .badText fault => "string is not valid utf8: " ++ fault.message
  | .badFlag byte =>
    "invalid u8 while decoding bool, expected 0 or 1, found " ++ toString byte.toNat
  | .badOptionTag byte => "tag for enum is not valid, found " ++ toString byte.toNat
  | .trailing => "Slice had bytes remaining after deserialization"

/-- Takes a value from the front of a byte string. -/
abbrev Reader (α : Type) := StateT Bytes (Except WireFault) α

namespace Wire

def ofLength (n : Nat) : Bytes := Bytes.ofNatLE 8 n

def ofText (s : String) : Bytes := ofLength (utf8 s).length ++ utf8 s

def ofList {α : Type} (f : α → Bytes) (l : List α) : Bytes := ofLength l.length ++ l.flatMap f

def ofFlag (b : Bool) : Bytes := [if b then 1 else 0]

def ofOption {α : Type} (f : α → Bytes) : Option α → Bytes
  | none => [0]
  | some a => 1 :: f a

def ofKey (k : KeyId) : Bytes := k.bytes.val
def ofBill (b : BillId) : Bytes := b.bytes.val
def ofToken (t : TokenId) : Bytes := Bytes.ofUInt64LE t.number

/-- The next `n` bytes, or the fault if there are fewer. -/
def take (n : Nat) (fault : WireFault) : Reader Bytes := fun b =>
  if n ≤ b.length then .ok (b.take n, b.drop n) else .error fault

def number (width : Nat) : Reader Nat := do return Bytes.toNatLE (← take width .endOfData)

def byte : Reader UInt8 := do return UInt8.ofNat (← number 1)
def word16 : Reader UInt16 := do return UInt16.ofNat (← number 2)
def word32 : Reader UInt32 := do return UInt32.ofNat (← number 4)
def word64 : Reader UInt64 := do return UInt64.ofNat (← number 8)

def fixed (n : Nat) : Reader (FixedBytes n) := fun b =>
  match FixedBytes.ofBytes? n (b.take n) with
  | some f => .ok (f, b.drop n)
  | none => .error .endOfData

def key : Reader KeyId := do return ⟨← fixed 20⟩
def bill : Reader BillId := do return ⟨← fixed 20⟩
def token : Reader TokenId := do return ⟨← word64⟩

def text : Reader String := do
  let bytes ← take (← number 8) .shortText
  match Utf8.decode bytes with
  | .ok s => return s
  | .error fault => throw (.badText fault)

def times {α : Type} (r : Reader α) : Nat → Reader (List α)
  | 0 => return []
  | n + 1 => do
    let a ← r
    return a :: (← times r n)

def list {α : Type} (r : Reader α) : Reader (List α) := do times r (← number 8)

def flag : Reader Bool := do
  match ← byte with
  | 0 => return false
  | 1 => return true
  | b => throw (.badFlag b)

def option {α : Type} (r : Reader α) : Reader (Option α) := do
  match ← byte with
  | 0 => return none
  | 1 => return some (← r)
  | b => throw (.badOptionTag b)

/-- Reads a value and takes no notice of bytes after it. -/
def readFront {α : Type} (r : Reader α) (b : Bytes) : Except WireFault α := (r b).map Prod.fst

def readAll {α : Type} (r : Reader α) (b : Bytes) : Except WireFault α := do
  let (a, rest) ← r b
  if rest.isEmpty then return a else throw .trailing

end Wire

end CivicLedger
