import CivicLedger.Bytes.Hex
import CivicLedger.Hash.Blake2b
import CivicLedger.Hash.Ripemd160
import CivicLedger.Hash.Sha256
import CivicLedger.Number.Word
import CivicLedger.Ordered.Key

/-!
# Identities

A key is known by the 160-bit hash of its public half, a bill by that of its title, and a
transaction by 32 bytes. Tokens are numbered. Identities are ordered by their bytes and are written
in lower-case hexadecimal digits.
-/

namespace CivicLedger

def hash160 (b : Bytes) : FixedBytes 20 := Ripemd160.hash (Sha256.hash b).val

/-- An address: it holds coins and tokens, votes, and may be a delegate or a committee. -/
structure KeyId where
  bytes : FixedBytes 20
  deriving DecidableEq

structure BillId where
  bytes : FixedBytes 20
  deriving DecidableEq

structure TxId where
  bytes : FixedBytes 32
  deriving DecidableEq

/-- Tokens are numbered from 1 in the order of their creation. -/
structure TokenId where
  number : UInt64
  deriving DecidableEq, Repr

instance : KeyOrder KeyId := .lift KeyId.bytes fun {a b} h => by cases a; cases b; simp_all
instance : KeyOrder BillId := .lift BillId.bytes fun {a b} h => by cases a; cases b; simp_all
instance : KeyOrder TokenId := .lift TokenId.number fun {a b} h => by cases a; cases b; simp_all

inductive IdentityFault where
  | notHex (text : String) (fault : HexFault)
  | badLength (count : Nat)
  deriving DecidableEq, Repr

def IdentityFault.detail : IdentityFault → String
  | .notHex text fault => text ++ ": " ++ fault.message
  | .badLength count => "expected 20 bytes, got " ++ toString count

def identityOfBytes (b : Bytes) : Except IdentityFault (FixedBytes 20) :=
  match FixedBytes.ofBytes? 20 b with
  | some f => .ok f
  | none => .error (.badLength b.length)

def identityOfText (s : String) : Except IdentityFault (FixedBytes 20) :=
  match Hex.decode s with
  | .ok b => identityOfBytes b
  | .error fault => .error (.notHex s fault)

namespace KeyId

def ofBytes (b : Bytes) : Except IdentityFault KeyId := (identityOfBytes b).map mk
def ofText (s : String) : Except IdentityFault KeyId := (identityOfText s).map mk
def ofPublicKey (b : Bytes) : KeyId := ⟨hash160 b⟩
def text (k : KeyId) : String := Hex.encode k.bytes.val
/-- The first four bytes stand for the whole. -/
def brief (k : KeyId) : String := "KeyId(" ++ Hex.encode (k.bytes.val.take 4) ++ ")"
def faultMessage (f : IdentityFault) : String := "invalid key id: " ++ f.detail

end KeyId

namespace BillId

def ofBytes (b : Bytes) : Except IdentityFault BillId := (identityOfBytes b).map mk
def ofText (s : String) : Except IdentityFault BillId := (identityOfText s).map mk
def ofTitle (title : String) : BillId := ⟨hash160 (utf8 title)⟩
def text (b : BillId) : String := Hex.encode b.bytes.val
def brief (b : BillId) : String := "BillId(" ++ Hex.encode (b.bytes.val.take 4) ++ ")"
def faultMessage (f : IdentityFault) : String := "invalid bill id: " ++ f.detail

end BillId

namespace TxId

def zero : TxId := ⟨FixedBytes.fill 32 0⟩
def text (t : TxId) : String := Hex.encode t.bytes.val
def brief (t : TxId) : String := "TxHash(" ++ Hex.encode (t.bytes.val.take 4) ++ ")"

end TxId

namespace TokenId

def first : TokenId := ⟨1⟩
def next (t : TokenId) : TokenId := ⟨Word.satAdd t.number 1⟩
def text (t : TokenId) : String := toString t.number

end TokenId

end CivicLedger
