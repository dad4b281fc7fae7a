import Mathlib.Algebra.Ring.Nat
import CivicLedger.Text.Digits

/-!
# Lemmas on decimal digits

The last digits of a number stand for its remainder. Digits written after others shift them by as
many places; so zeros at the end are a power of ten, and a number has no more digits than places.
-/

namespace CivicLedger.Text

theorem valueOf_lastDigits (k n : Nat) : valueOf (lastDigits k n) = n % 10 ^ k := by
  induction k generalizing n with
  | zero => simp [lastDigits, valueOf, Nat.mod_one]
  | succ k ih =>
    rw [lastDigits, valueOf_append_digit, ih, show 10 ^ (k + 1) = 10 * 10 ^ k from Nat.pow_succ',
      Nat.mod_mul]
    omega

@[simp] theorem valueOf_nil : valueOf [] = 0 := rfl

theorem valueOf_concat (l : List Char) (c : Char) :
    valueOf (l ++ [c]) = valueOf l * 10 + digitValue c := by
  rw [valueOf, List.foldl_append]
  rfl

theorem valueOf_append_zeros (l : List Char) (k : Nat) :
    valueOf (l ++ List.replicate k '0') = valueOf l * 10 ^ k := by
  induction k with
  | zero => simp
  | succ k ih =>
    rw [List.replicate_succ', ← List.append_assoc, valueOf_concat, ih, Nat.pow_succ,
      Nat.mul_assoc]
    rfl

theorem digitValue_lt {c : Char} (h : isDigit c = true) : digitValue c < 10 := by
  simp only [isDigit, Bool.and_eq_true, decide_eq_true_eq, Char.le_def] at h
  have hnine : c.toNat ≤ '9'.toNat := h.2
  have : '9'.toNat = 57 := rfl
  unfold digitValue
  omega

theorem valueOf_lt {l : List Char} (h : l.all isDigit = true) : valueOf l < 10 ^ l.length := by
  -- The value is a fold from the left, so the induction takes digits off at the end.
  obtain ⟨r, rfl⟩ : ∃ r, l = r.reverse := ⟨l.reverse, l.reverse_reverse.symm⟩
  induction r with
  | nil => simp
  | cons c r ih =>
    rw [List.reverse_cons, List.all_append, Bool.and_eq_true] at h
    have hr := ih h.1
    have hc := digitValue_lt (c := c) (by simpa using h.2)
    rw [List.reverse_cons, valueOf_concat, List.length_append, List.length_singleton, Nat.pow_succ]
    omega

theorem decimal_ne_nil (n : Nat) : decimal n ≠ [] := by
  rw [decimal]
  split <;> simp

end CivicLedger.Text
