import CivicLedger.Bytes.Basic

/-!
# Ordered keys

A key type carries a strict total order that can be computed. Byte strings are ordered
lexicographically, numbers by size, texts by their UTF-8 bytes and pairs by their first parts first.
-/

namespace CivicLedger

/-- A strict total order on keys: of two different keys exactly one comes before the other. -/
class KeyOrder (κ : Type) where
  before : κ → κ → Bool
  before_irrefl : ∀ a, before a a = false
  before_trans : ∀ {a b c}, before a b = true → before b c = true → before a c = true
  before_connected : ∀ {a b}, before a b = false → before b a = false → a = b

namespace KeyOrder

variable {κ μ : Type}

theorem asymm [KeyOrder κ] {a b : κ} (h : before a b = true) : before b a = false := by
  cases hb : before b a with
  | false => rfl
  | true => exact absurd (before_trans h hb) (by simp [before_irrefl])

theorem ne_of_before [KeyOrder κ] {a b : κ} (h : before a b = true) : a ≠ b := by
  rintro rfl
  simp [before_irrefl] at h

/-- The order of `μ`, read through an injection into it. -/
@[reducible] def lift [KeyOrder μ] (f : κ → μ) (inj : ∀ {a b}, f a = f b → a = b) : KeyOrder κ where
  before a b := before (f a) (f b)
  before_irrefl a := before_irrefl (f a)
  before_trans := before_trans
  before_connected h k := inj (before_connected h k)

instance : KeyOrder Bytes where
  before := Bytes.before
  before_irrefl := Bytes.before_irrefl
  before_trans := Bytes.before_trans
  before_connected := Bytes.eq_of_not_before

instance {n : Nat} : KeyOrder (FixedBytes n) := lift Subtype.val Subtype.ext

instance : KeyOrder String := lift utf8 utf8_injective

instance : KeyOrder UInt64 where
  before a b := decide (a < b)
  before_irrefl a := by simp
  before_trans h k := by
    simp only [decide_eq_true_eq] at h k ⊢
    exact UInt64.lt_trans h k
  before_connected h k := by
    simp only [decide_eq_false_iff_not] at h k
    exact UInt64.le_antisymm (UInt64.not_lt.mp k) (UInt64.not_lt.mp h)

instance [KeyOrder κ] [KeyOrder μ] : KeyOrder (κ × μ) where
  before a b := before a.1 b.1 || (!before b.1 a.1 && before a.2 b.2)
  before_irrefl a := by simp [before_irrefl]
  before_trans := by
    intro a b c h k
    simp only [Bool.or_eq_true, Bool.and_eq_true, Bool.not_eq_true'] at h k ⊢
    rcases h with h | ⟨h₁, h₂⟩
    · rcases k with k | ⟨k₁, _⟩
      · exact .inl (before_trans h k)
      · cases hbc : before b.1 c.1 with
        | true => exact .inl (before_trans h hbc)
        | false => exact .inl (before_connected hbc k₁ ▸ h)
    · cases hab : before a.1 b.1 with
      | true =>
        rcases k with k | ⟨k₁, _⟩
        · exact .inl (before_trans hab k)
        · cases hbc : before b.1 c.1 with
          | true => exact .inl (before_trans hab hbc)
          | false => exact .inl (before_connected hbc k₁ ▸ hab)
      | false =>
        have e : a.1 = b.1 := before_connected hab h₁
        rcases k with k | ⟨k₁, k₂⟩
        · exact .inl (e ▸ k)
        · exact .inr ⟨e ▸ k₁, before_trans h₂ k₂⟩
  before_connected := by
    intro a b h k
    simp only [Bool.or_eq_false_iff, Bool.and_eq_false_iff, Bool.not_eq_false'] at h k
    have e : a.1 = b.1 := before_connected h.1 k.1
    have f : a.2 = b.2 := by
      refine before_connected (h.2.resolve_left ?_) (k.2.resolve_left ?_)
      · simp [k.1]
      · simp [h.1]
    exact Prod.ext e f

end KeyOrder

end CivicLedger
