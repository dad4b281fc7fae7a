import Mathlib.Algebra.Ring.Nat
import CivicLedger.Number.Word

/-!
# Sums of many words

A sum that stops at the largest word with every step comes to the exact sum, cut off once.
-/

namespace CivicLedger

namespace Word

theorem toNat_foldl_satAdd (l : List UInt64) (a : UInt64) :
    (l.foldl satAdd a).toNat = min (a.toNat + (l.map UInt64.toNat).sum) (UInt64.size - 1) := by
  induction l generalizing a with
  | nil =>
    have := a.toNat_lt_size
    simp only [List.foldl_nil, List.map_nil, List.sum_nil]
    omega
  | cons b rest ih =>
    rw [List.foldl_cons, ih, toNat_satAdd, List.map_cons, List.sum_cons]
    omega

theorem toNat_satSum (l : List UInt64) :
    (satSum l).toNat = min (l.map UInt64.toNat).sum (UInt64.size - 1) := by
  unfold satSum
  rw [toNat_foldl_satAdd, UInt64.toNat_zero, Nat.zero_add]

end Word

end CivicLedger
