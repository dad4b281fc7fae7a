import CivicLedger.Bytes.Basic

/-!
# Words as bytes

Fixed-width little-endian words, as payloads and stored values hold them, and big-endian words, as
keys hold them so that the order of the bytes is the order of the numbers.
-/

namespace CivicLedger.Bytes

def ofNatLE : Nat → Nat → Bytes
  | 0, _ => []
  | n + 1, x => UInt8.ofNat x :: ofNatLE n (x / 256)

/-- The number whose bytes are listed lowest first. -/
def toNatLE : Bytes → Nat
  | [] => 0
  | b :: bs => b.toNat + 256 * toNatLE bs

def ofNatBE (n x : Nat) : Bytes := (ofNatLE n x).reverse

/-- The number whose bytes are listed highest first. -/
def toNatBE (b : Bytes) : Nat := toNatLE b.reverse

@[simp] theorem length_ofNatLE (n x : Nat) : (ofNatLE n x).length = n := by
  induction n generalizing x with
  | zero => rfl
  | succ n ih => simp [ofNatLE, ih]

@[simp] theorem length_ofNatBE (n x : Nat) : (ofNatBE n x).length = n := by
  simp [ofNatBE]

def ofUInt16LE (x : UInt16) : Bytes := ofNatLE 2 x.toNat
def ofUInt32LE (x : UInt32) : Bytes := ofNatLE 4 x.toNat
def ofUInt64LE (x : UInt64) : Bytes := ofNatLE 8 x.toNat
def ofUInt64BE (x : UInt64) : Bytes := ofNatBE 8 x.toNat

end CivicLedger.Bytes
