import CivicLedger.Bytes.Hex

/-!
# Lemmas on hexadecimal text

Bytes are read back from their digits.
-/

namespace CivicLedger.Hex

/-- The byte that a digit is written as. -/
theorem utf8_digit {n : Nat} (h : n < 16) :
    ∃ b, String.utf8EncodeChar (digit n) = [b] ∧ digitValue? b = some (UInt8.ofNat n) := by
  have hall : ∀ n < 16, String.utf8EncodeChar (digit n) = [UInt8.ofNat (digit n).toNat] ∧
      digitValue? (UInt8.ofNat (digit n).toNat) = some (UInt8.ofNat n) := by
    decide
  exact ⟨_, hall n h⟩

theorem utf8_encode (b : Bytes) :
    utf8 (encode b) = b.flatMap fun x => (digits x).flatMap String.utf8EncodeChar := by
  rw [utf8, encode, String.toByteArray_ofList, List.utf8Encode, List.data_toByteArray,
    List.flatMap_assoc]

theorem byte_of_halves (x : UInt8) :
    UInt8.ofNat (x.toNat / 16) * 16 + UInt8.ofNat (x.toNat % 16) = x := by
  have hx := x.toNat_lt
  have hsixteen : (16 : UInt8).toNat = 16 := rfl
  refine UInt8.toNat_inj.mp ?_
  simp only [UInt8.toNat_add, UInt8.toNat_mul, UInt8.toNat_ofNat', hsixteen]
  omega

theorem decodePairs_encode (b : Bytes) (position : Nat) :
    decodePairs position (utf8 (encode b)) = .ok b ∧ (utf8 (encode b)).length = 2 * b.length := by
  induction b generalizing position with
  | nil => exact ⟨rfl, rfl⟩
  | cons x b ih =>
    have hx := x.toNat_lt
    rcases utf8_digit (n := x.toNat / 16) (by omega) with ⟨high, hhigh, hhighValue⟩
    rcases utf8_digit (n := x.toNat % 16) (by omega) with ⟨low, hlow, hlowValue⟩
    rcases ih (position + 2) with ⟨hrest, hlength⟩
    have hbytes : utf8 (encode (x :: b)) = high :: low :: utf8 (encode b) := by
      simp [utf8_encode, digits, hhigh, hlow]
    rw [hbytes]
    constructor
    · simp only [decodePairs, hhighValue, hlowValue, hrest, Except.map, byte_of_halves]
    · rw [List.length_cons, List.length_cons, hlength, List.length_cons]
      omega

theorem decode_encode (b : Bytes) : decode (encode b) = .ok b := by
  rcases decodePairs_encode b 0 with ⟨hpairs, hlength⟩
  have heven : ¬ (utf8 (encode b)).length % 2 = 1 := by omega
  rw [decode, decodeBytes, if_neg heven, hpairs]

end CivicLedger.Hex
