import CivicLedger.Bytes.Word
import CivicLedger.State.Fault

/-!
# Keys of the tables

Keys are identities and big-endian numbers put one after another, so that the order of the bytes is
the order of the parts. All keys that begin with a given byte string lie from that string up to,
and not including, the next string that does not begin with it.
-/

namespace CivicLedger.Key

def ofKey (k : KeyId) : Bytes := k.bytes.val
def ofBill (b : BillId) : Bytes := b.bytes.val
def ofToken (t : TokenId) : Bytes := Bytes.ofUInt64BE t.number

def ofBalance (token : TokenId) (holder : KeyId) : Bytes := ofToken token ++ ofKey holder

def ofLock (token : TokenId) (holder : KeyId) (expiry : Height) : Bytes :=
  ofBalance token holder ++ Bytes.ofUInt64BE expiry

def ofDue (closes : Timestamp) (bill : BillId) : Bytes := Bytes.ofUInt64BE closes ++ ofBill bill

/-- Adds one to the last byte that is below 255 and drops those after it; works on the bytes in
reverse. -/
def increment : Bytes → Option Bytes
  | [] => none
  | b :: rest => if b < 255 then some ((b + 1) :: rest) else increment rest

/-- The least byte string after all those that begin with `start`; none if `start` has no byte
below 255. -/
def after? (start : Bytes) : Option Bytes := (increment start.reverse).map List.reverse

def keyAt (b : Bytes) (offset : Nat) : Except StoreFault KeyId :=
  match FixedBytes.ofBytes? 20 ((b.drop offset).take 20) with
  | some f => .ok ⟨f⟩
  | none => .error (.unreadable (.shortKey offset))

def billAt (b : Bytes) (offset : Nat) : Except StoreFault BillId :=
  match FixedBytes.ofBytes? 20 ((b.drop offset).take 20) with
  | some f => .ok ⟨f⟩
  | none => .error (.unreadable (.shortBill offset))

def wordAt (b : Bytes) (offset : Nat) : Except StoreFault UInt64 :=
  match FixedBytes.ofBytes? 8 ((b.drop offset).take 8) with
  | some f => .ok (UInt64.ofNat (Bytes.toNatBE f.val))
  | none => .error (.unreadable (.shortWord offset))

end CivicLedger.Key
