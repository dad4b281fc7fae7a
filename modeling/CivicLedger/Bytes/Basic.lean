/-!
# Byte strings

Byte strings, the bytes of a text, byte strings of a fixed length, and the lexicographic order that
every key of the ledger is compared by. The order is total: of two different byte strings exactly
one comes before the other.
-/

namespace CivicLedger

abbrev Bytes := List UInt8

namespace Bytes

/-- A proper initial segment comes before its extensions; else the first difference decides. -/
def before : Bytes → Bytes → Bool
  | [], [] => false
  | [], _ :: _ => true
  | _ :: _, [] => false
  | a :: as, b :: bs => if a < b then true else if b < a then false else before as bs

theorem before_irrefl (a : Bytes) : before a a = false := by
  induction a with
  | nil => rfl
  | cons a as ih => simp [before, ih]

theorem before_trans {a b c : Bytes} (hab : before a b = true) (hbc : before b c = true) :
    before a c = true := by
  induction a generalizing b c with
  | nil =>
    cases b with
    | nil => simp [before] at hab
    | cons y ys => cases c <;> simp [before] at hbc ⊢
  | cons x xs ih =>
    cases b with
    | nil => simp [before] at hab
    | cons y ys =>
      cases c with
      | nil => simp [before] at hbc
      | cons z zs =>
        simp only [before] at hab hbc ⊢
        split at hab
        · next hxy =>
          split at hbc
          · next hyz => simp [UInt8.lt_trans hxy hyz]
          · split at hbc
            · simp at hbc
            · next hyz hzy =>
              have : y = z := UInt8.le_antisymm (UInt8.not_lt.mp hzy) (UInt8.not_lt.mp hyz)
              simp [← this, hxy]
        · split at hab
          · simp at hab
          · next hxy hyx =>
            have : x = y := UInt8.le_antisymm (UInt8.not_lt.mp hyx) (UInt8.not_lt.mp hxy)
            subst this
            split at hbc
            · next hxz => simp [hxz]
            · split at hbc
              · simp at hbc
              · next hxz hzx => simp [hxz, hzx, ih hab hbc]

theorem eq_of_not_before {a b : Bytes} (hab : before a b = false) (hba : before b a = false) :
    a = b := by
  induction a generalizing b with
  | nil => cases b <;> simp [before] at hab ⊢
  | cons x xs ih =>
    cases b with
    | nil => simp [before] at hba
    | cons y ys =>
      simp only [before] at hab hba
      split at hab
      · simp at hab
      · next hxy =>
        split at hab
        · next hyx => simp [hyx] at hba
        · next hyx =>
          have : x = y := UInt8.le_antisymm (UInt8.not_lt.mp hyx) (UInt8.not_lt.mp hxy)
          subst this
          simp only [hxy, if_false] at hba
          rw [ih hab hba]

end Bytes

def utf8 (s : String) : Bytes := s.toByteArray.data.toList

theorem utf8_injective {s t : String} (h : utf8 s = utf8 t) : s = t := by
  unfold utf8 at h
  have hd : s.toByteArray.data = t.toByteArray.data := Array.toList_inj.mp h
  exact String.toByteArray_inj.mp (ByteArray.ext hd)

abbrev FixedBytes (n : Nat) := { b : Bytes // b.length = n }

namespace FixedBytes

def ofBytes? (n : Nat) (b : Bytes) : Option (FixedBytes n) :=
  if h : b.length = n then some ⟨b, h⟩ else none

def fill (n : Nat) (b : UInt8) : FixedBytes n := ⟨List.replicate n b, List.length_replicate⟩

theorem ofBytes?_val {n : Nat} (b : FixedBytes n) : ofBytes? n b.val = some b := by
  simp [ofBytes?, b.property]

end FixedBytes

end CivicLedger
