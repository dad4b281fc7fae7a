import CivicLedger.Bytes.WordLemmas
import CivicLedger.Database.Key
import CivicLedger.Ordered.Key

/-!
# The order of bytes and the order of keys

Byte strings of one length are ordered like the big-endian numbers that they write, and byte strings
with parts of a fixed length are ordered part by part. Those that begin with a given byte string are
exactly those from it up to the least one after all of them.
-/

namespace CivicLedger

namespace Bytes

/-- Parts of the same length decide before what comes after them. -/
theorem before_append {a b : Bytes} (h : a.length = b.length) (c d : Bytes) :
    before (a ++ c) (b ++ d) = (before a b || (!before b a && before c d)) := by
  induction a generalizing b with
  | nil =>
    cases b with
    | nil => simp [before]
    | cons y b => cases h
  | cons x a ih =>
    cases b with
    | nil => cases h
    | cons y b =>
      simp only [List.cons_append, before]
      by_cases hxy : x < y
      · simp [hxy]
      · by_cases hyx : y < x
        · simp [hxy, hyx]
        · simp only [hxy, hyx, if_false]
          exact ih (Nat.succ.inj h)

theorem toNatLE_append (a b : Bytes) :
    toNatLE (a ++ b) = toNatLE a + 256 ^ a.length * toNatLE b := by
  induction a with
  | nil => simp [toNatLE]
  | cons x a ih =>
    simp only [List.cons_append, toNatLE, ih, List.length_cons, Nat.pow_succ]
    rw [Nat.mul_add, Nat.mul_comm (256 ^ a.length) 256, Nat.mul_assoc, Nat.add_assoc]

theorem toNatBE_cons (x : UInt8) (a : Bytes) :
    toNatBE (x :: a) = 256 ^ a.length * x.toNat + toNatBE a := by
  unfold toNatBE
  rw [List.reverse_cons, toNatLE_append, List.length_reverse]
  simp only [toNatLE, Nat.mul_zero, Nat.add_zero]
  omega

theorem toNatBE_lt (a : Bytes) : toNatBE a < 256 ^ a.length := by
  have h := toNatLE_lt a.reverse
  rwa [List.length_reverse] at h

/-- Between numbers of one width the first byte that differs decides. -/
theorem before_eq_toNatBE {a b : Bytes} (h : a.length = b.length) :
    before a b = decide (toNatBE a < toNatBE b) := by
  induction a generalizing b with
  | nil =>
    cases b with
    | nil => rfl
    | cons y b => cases h
  | cons x a ih =>
    cases b with
    | nil => cases h
    | cons y b =>
      have hlen : a.length = b.length := Nat.succ.inj h
      have ha := toNatBE_lt a
      have hb := toNatBE_lt b
      rw [toNatBE_cons, toNatBE_cons, hlen]
      rw [hlen] at ha
      simp only [before]
      by_cases hxy : x < y
      · have hlt := UInt8.lt_iff_toNat_lt.mp hxy
        have hmul := Nat.mul_le_mul_left (256 ^ b.length) (Nat.succ_le_of_lt hlt)
        rw [Nat.mul_succ] at hmul
        rw [if_pos hxy, eq_comm, decide_eq_true_eq]
        omega
      · rw [if_neg hxy]
        by_cases hyx : y < x
        · have hlt := UInt8.lt_iff_toNat_lt.mp hyx
          have hmul := Nat.mul_le_mul_left (256 ^ b.length) (Nat.succ_le_of_lt hlt)
          rw [Nat.mul_succ] at hmul
          rw [if_pos hyx, eq_comm, decide_eq_false_iff_not]
          omega
        · have heq : x = y := UInt8.le_antisymm (UInt8.not_lt.mp hyx) (UInt8.not_lt.mp hxy)
          subst heq
          rw [if_neg hyx, ih hlen]
          simp only [Nat.add_lt_add_iff_left]

@[simp] theorem length_ofUInt64BE (x : UInt64) : (ofUInt64BE x).length = 8 := length_ofNatBE _ _

theorem toNatBE_ofUInt64BE (x : UInt64) : toNatBE (ofUInt64BE x) = x.toNat := by
  unfold ofUInt64BE
  rw [toNatBE_ofNatBE]
  exact Nat.mod_eq_of_lt x.toNat_lt

theorem before_ofUInt64BE (x y : UInt64) :
    before (ofUInt64BE x) (ofUInt64BE y) = KeyOrder.before x y := by
  rw [before_eq_toNatBE (by simp), toNatBE_ofUInt64BE, toNatBE_ofUInt64BE]
  rfl

end Bytes

namespace Key

theorem increment_append (b : Bytes) (x : UInt8) :
    increment (b ++ [x]) = match increment b with
      | some c => some (c ++ [x])
      | none => if x < 255 then some [x + 1] else none := by
  induction b with
  | nil => simp [increment]
  | cons y b ih =>
    simp only [List.cons_append, increment, ih]
    by_cases hy : y < 255
    · simp [hy]
    · simp only [hy, if_false]

theorem toNat_add_one {x : UInt8} (h : x < 255) : (x + 1).toNat = x.toNat + 1 := by
  have hx := UInt8.lt_iff_toNat_lt.mp h
  rw [UInt8.toNat_add]
  exact Nat.mod_eq_of_lt (Nat.succ_lt_succ hx)

/-- The end of a range, from the front: the end for the rest if there is one, else the first byte
plus one. -/
theorem after?_cons (x : UInt8) (b : Bytes) :
    after? (x :: b) = match after? b with
      | some stop => some (x :: stop)
      | none => if x < 255 then some [x + 1] else none := by
  unfold after?
  rw [List.reverse_cons, increment_append]
  cases increment b.reverse with
  | some c => simp
  | none => split <;> simp_all

/-- A key lies in the range of a byte string exactly if it begins with it. -/
theorem in_range_iff (start k : Bytes) :
    (!Bytes.before k start && match after? start with
      | some stop => Bytes.before k stop
      | none => true) = start.isPrefixOf k := by
  induction start generalizing k with
  | nil => cases k <;> rfl
  | cons x start ih =>
    cases k with
    | nil => rfl
    | cons y k =>
      have hrest := ih k
      rw [after?_cons]
      simp only [Bytes.before, List.isPrefixOf_cons_cons]
      by_cases hyx : y < x
      · have hne : (x == y) = false := beq_false_of_ne fun e => UInt8.lt_irrefl y (e ▸ hyx)
        simp [hyx, hne]
      · by_cases hxy : x < y
        -- A first byte above that of the range is at or past its end, whether the end is the end
        -- for the rest or the first byte plus one.
        · have hne : (x == y) = false := beq_false_of_ne fun e => UInt8.lt_irrefl x (e ▸ hxy)
          have hx : x < 255 := by
            have h := UInt8.lt_iff_toNat_lt.mp hxy
            have hy := y.toNat_lt
            rw [UInt8.lt_iff_toNat_lt]
            exact Nat.lt_of_lt_of_le h (Nat.le_of_lt_succ hy)
          cases hstop : after? start with
          | some stop => simp [hyx, hxy, hne, Bytes.before]
          | none =>
            have hnext : ¬ y < x + 1 := by
              have h := UInt8.lt_iff_toNat_lt.mp hxy
              rw [UInt8.lt_iff_toNat_lt, toNat_add_one hx]
              omega
            have hnil : Bytes.before k [] = false := by cases k <;> rfl
            simp [hyx, hxy, hne, hx, Bytes.before, hnext, hnil]
        · have heq : y = x := UInt8.le_antisymm (UInt8.not_lt.mp hxy) (UInt8.not_lt.mp hyx)
          subst heq
          simp only [hyx, if_false, beq_self_eq_true, Bool.true_and, ← hrest]
          cases hstop : after? start with
          | some stop => simp [Bytes.before, hyx]
          | none =>
            by_cases hy : y < 255
            · have hnext : y < y + 1 := by
                rw [UInt8.lt_iff_toNat_lt, toNat_add_one hy]
                exact Nat.lt_succ_self _
              simp [hy, Bytes.before, hnext]
            · simp [hy]

example : after? [1, 255] = some [2] ∧ after? [255, 255] = none ∧ after? [] = none := by decide

end Key

end CivicLedger
