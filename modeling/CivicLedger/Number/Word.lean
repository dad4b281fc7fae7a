/-!
# Sums of machine words

Amounts, heights and times are 64-bit words. A sum either stops at the largest word or is refused
when it does not fit; nothing wraps around. The lemmas say so in exact arithmetic.
-/

namespace CivicLedger

namespace Word

def max : UInt64 := 0xffffffffffffffff

@[simp] theorem toNat_max : max.toNat = UInt64.size - 1 := rfl

/-- The sum, or the largest word where it does not fit. -/
def satAdd (a b : UInt64) : UInt64 := if a.toNat + b.toNat < UInt64.size then a + b else max

theorem toNat_satAdd (a b : UInt64) :
    (satAdd a b).toNat = min (a.toNat + b.toNat) (UInt64.size - 1) := by
  unfold satAdd
  split
  · next h =>
    rw [UInt64.toNat_add, Nat.mod_eq_of_lt h]
    omega
  · rw [toNat_max]
    omega

def checkedAdd (a b : UInt64) : Option UInt64 :=
  if a.toNat + b.toNat < UInt64.size then some (a + b) else none

theorem checkedAdd_eq_some_iff {a b c : UInt64} :
    checkedAdd a b = some c ↔ a.toNat + b.toNat = c.toNat := by
  unfold checkedAdd
  split
  · next h =>
    simp only [Option.some.injEq, ← UInt64.toNat_inj, UInt64.toNat_add, Nat.mod_eq_of_lt h]
  · next h =>
    have := c.toNat_lt_size
    constructor
    · simp
    · omega

def checkedSub (a b : UInt64) : Option UInt64 := if b ≤ a then some (a - b) else none

theorem checkedSub_eq_some_iff {a b c : UInt64} :
    checkedSub a b = some c ↔ c.toNat + b.toNat = a.toNat := by
  unfold checkedSub
  split
  · next h =>
    have h' := UInt64.le_iff_toNat_le.mp h
    simp only [Option.some.injEq, ← UInt64.toNat_inj, UInt64.toNat_sub_of_le _ _ h]
    omega
  · next h =>
    have h' : ¬ b.toNat ≤ a.toNat := fun k => h (UInt64.le_iff_toNat_le.mpr k)
    constructor
    · simp
    · omega

def ofNat? (n : Nat) : Option UInt64 := if n < UInt64.size then some (UInt64.ofNat n) else none

theorem ofNat?_eq_some_iff {n : Nat} {a : UInt64} : ofNat? n = some a ↔ n = a.toNat := by
  unfold ofNat?
  split
  · next h =>
    simp only [Option.some.injEq, ← UInt64.toNat_inj, UInt64.toNat_ofNat', Nat.mod_eq_of_lt h]
  · next h =>
    have := a.toNat_lt_size
    constructor
    · simp
    · omega

/-- The sum of a list of words, stopping at the largest word. -/
def satSum (l : List UInt64) : UInt64 := l.foldl satAdd 0

end Word

end CivicLedger
