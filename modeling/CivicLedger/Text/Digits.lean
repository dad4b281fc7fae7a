import CivicLedger.Number.Word

/-!
# Decimal digits

Words written in ASCII digits, most significant first. A text with any other character, with no
digit at all or with a value beyond 64 bits is no word. Numbers are written without leading zeros,
and reading what was written gives the number back.
-/

namespace CivicLedger.Text

def isDigit (c : Char) : Bool := '0' ≤ c && c ≤ '9'

def digitValue (c : Char) : Nat := c.toNat - 48

def digitOf (n : Nat) : Char := Char.ofNat (48 + n % 10)

theorem digitValue_digitOf (n : Nat) : digitValue (digitOf n) = n % 10 := by
  have h : n % 10 < 10 := Nat.mod_lt _ (by decide)
  unfold digitOf
  generalize n % 10 = d at h
  have : ∀ d < 10, digitValue (Char.ofNat (48 + d)) = d := by decide
  exact this d h

theorem isDigit_digitOf (n : Nat) : isDigit (digitOf n) = true := by
  have h : n % 10 < 10 := Nat.mod_lt _ (by decide)
  unfold digitOf
  generalize n % 10 = d at h
  have : ∀ d < 10, isDigit (Char.ofNat (48 + d)) = true := by decide
  exact this d h

/-- The number that a list of digits stands for, most significant first. -/
def valueOf (l : List Char) : Nat := l.foldl (fun n c => n * 10 + digitValue c) 0

theorem valueOf_append_digit (l : List Char) (n : Nat) :
    valueOf (l ++ [digitOf n]) = valueOf l * 10 + n % 10 := by
  simp [valueOf, digitValue_digitOf]

def decimal (n : Nat) : List Char :=
  if n < 10 then [digitOf n] else decimal (n / 10) ++ [digitOf n]

/-- The last `k` digits of a number, with leading zeros where it has fewer. -/
def lastDigits : Nat → Nat → List Char
  | 0, _ => []
  | k + 1, n => lastDigits k (n / 10) ++ [digitOf n]

theorem valueOf_decimal (n : Nat) : valueOf (decimal n) = n := by
  induction n using Nat.strongRecOn with
  | _ n ih =>
    rw [decimal]
    split
    · next h => simp [valueOf, digitValue_digitOf, Nat.mod_eq_of_lt h]
    · rw [valueOf_append_digit, ih (n / 10) (by omega)]
      omega

theorem all_isDigit_decimal (n : Nat) : (decimal n).all isDigit = true := by
  induction n using Nat.strongRecOn with
  | _ n ih =>
    rw [decimal]
    split
    · simp [isDigit_digitOf]
    · rw [List.all_append, ih (n / 10) (by omega)]
      simp [isDigit_digitOf]

theorem length_lastDigits (k n : Nat) : (lastDigits k n).length = k := by
  induction k generalizing n with
  | zero => rfl
  | succ k ih => simp [lastDigits, ih]

theorem all_isDigit_lastDigits (k n : Nat) : (lastDigits k n).all isDigit = true := by
  induction k generalizing n with
  | zero => rfl
  | succ k ih => rw [lastDigits, List.all_append, ih]; simp [isDigit_digitOf]

def wordOfDigits? (l : List Char) : Option UInt64 :=
  if l ≠ [] ∧ l.all isDigit then Word.ofNat? (valueOf l) else none

/-- A word written in digits, with or without a plus sign. -/
def word? (l : List Char) : Option UInt64 :=
  match l with
  | '+' :: rest => wordOfDigits? rest
  | _ => wordOfDigits? l

end CivicLedger.Text
