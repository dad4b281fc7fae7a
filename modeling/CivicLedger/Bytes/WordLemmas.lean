import Mathlib.Algebra.Ring.Nat
import CivicLedger.Bytes.Word

/-!
# Lemmas on words as bytes

Reading the bytes of a number gives back what of it fits into them.
-/

namespace CivicLedger.Bytes

theorem toNatLE_ofNatLE (n x : Nat) : toNatLE (ofNatLE n x) = x % 256 ^ n := by
  induction n generalizing x with
  | zero => simp [ofNatLE, toNatLE, Nat.mod_one]
  | succ n ih =>
    simp only [ofNatLE, toNatLE, ih, UInt8.toNat_ofNat']
    have h : x % (256 * 256 ^ n) = x % 256 + 256 * (x / 256 % 256 ^ n) := Nat.mod_mul
    rw [show 256 ^ (n + 1) = 256 * 256 ^ n from Nat.pow_succ', h]

theorem toNatBE_ofNatBE (n x : Nat) : toNatBE (ofNatBE n x) = x % 256 ^ n := by
  simp [toNatBE, ofNatBE, toNatLE_ofNatLE]

theorem toNatLE_lt (b : Bytes) : toNatLE b < 256 ^ b.length := by
  induction b with
  | nil => simp [toNatLE]
  | cons a b ih =>
    have := a.toNat_lt
    simp only [toNatLE, List.length_cons, Nat.pow_succ]
    omega

end CivicLedger.Bytes
