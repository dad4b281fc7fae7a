import CivicLedger.Amount
import CivicLedger.Text.DigitsLemmas

/-!
# Amounts are read exactly

A text is read as an amount exactly where it is digits with at most one point among them, at least
one digit and no more places than asked for, and where the number of raw units it stands for, in
exact arithmetic, is a word. None of the sums and products on the way leaves the words unless the
amount does. What an amount is written as stands for that amount.
-/

namespace CivicLedger

namespace Amount

open Text

inductive Parts : List Char → List Char → List Char → Prop where
  | plain (l : List Char) : '.' ∉ l → Parts l l []
  | pointed (whole fraction : List Char) : '.' ∉ whole →
      Parts (whole ++ '.' :: fraction) whole fraction

/-- The number of raw units that a text stands for, with so many decimal places. -/
inductive Denotes (l : List Char) (digits raw : Nat) : Prop where
  | amount (whole fraction : List Char) : Parts l whole fraction →
      (whole ≠ [] ∨ fraction ≠ []) → whole.all isDigit → fraction.all isDigit →
      fraction.length ≤ digits →
      valueOf whole * 10 ^ digits + valueOf fraction * 10 ^ (digits - fraction.length) = raw →
      Denotes l digits raw

def shift? : Nat → UInt64 → Option UInt64
  | 0, n => some n
  | k + 1, n => checkedMul n 10 >>= shift? k

theorem parts_splitPoint (l : List Char) : Parts l (splitPoint l).1 (splitPoint l).2 := by
  induction l with
  | nil => exact .plain [] (by simp)
  | cons c rest ih =>
    by_cases hc : c = '.'
    · subst hc
      exact .pointed [] rest (by simp)
    · have hsplit : splitPoint (c :: rest) = (c :: (splitPoint rest).1, (splitPoint rest).2) := by
        simp [splitPoint, hc]
      rw [hsplit]
      generalize splitPoint rest = p at ih ⊢
      obtain ⟨whole, fraction⟩ := p
      have hcons {whole : List Char} (h : '.' ∉ whole) : '.' ∉ c :: whole := by
        simp [h, Ne.symm hc]
      cases ih with
      | plain _ h => exact .plain _ (hcons h)
      | pointed whole fraction h => exact .pointed (c :: whole) fraction (hcons h)

theorem Parts.splitPoint_eq {l whole fraction : List Char} (h : Parts l whole fraction) :
    splitPoint l = (whole, fraction) := by
  have hpass {whole : List Char} (h : '.' ∉ whole) :
      ∀ c ∈ whole, decide (c ≠ '.') = true := by
    rintro c hc
    exact decide_eq_true fun heq => h (heq ▸ hc)
  cases h with
  | plain _ h =>
    rw [splitPoint, ← List.append_nil l, List.takeWhile_append_of_pos (hpass h),
      List.dropWhile_append_of_pos (hpass h)]
    simp
  | pointed _ _ h =>
    rw [splitPoint, List.takeWhile_append_of_pos (hpass h), List.dropWhile_append_of_pos (hpass h)]
    simp

theorem checkedMul_eq_some_iff {a b c : UInt64} :
    checkedMul a b = some c ↔ a.toNat * b.toNat = c.toNat := by
  unfold checkedMul
  split
  · next h =>
    simp only [Option.some.injEq, ← UInt64.toNat_inj, UInt64.toNat_mul, Nat.mod_eq_of_lt h]
  · next h =>
    have := c.toNat_lt_size
    constructor
    · simp
    · omega

theorem toNat_pow_ten {k : Nat} (h : k ≤ 8) : (UInt64.ofNat (Nat.pow 10 k)).toNat = 10 ^ k := by
  have hpow : 10 ^ k ≤ 10 ^ 8 := Nat.pow_le_pow_right (by decide) h
  exact UInt64.toNat_ofNat_of_lt' (Nat.lt_of_le_of_lt hpow (by decide))

theorem unit?_eq_some {digits : UInt8} (h : digits ≤ maxDigits) :
    ∃ unit, unit? digits = some unit ∧ unit.toNat = 10 ^ digits.toNat :=
  ⟨_, if_pos h, toNat_pow_ten (UInt8.le_iff_toNat_le.mp h)⟩

theorem part?_eq_some_iff {l : List Char} (h : l.all isDigit) {n : UInt64} :
    part? l = some n ↔ valueOf l = n.toNat := by
  unfold part?
  split
  · next hnil =>
    rw [hnil, valueOf_nil, Option.some.injEq, ← UInt64.toNat_inj, UInt64.toNat_zero]
  · next hne => rw [wordOfDigits?, if_pos ⟨hne, h⟩, Word.ofNat?_eq_some_iff]

/-- As long as the last product is a word, so are the others. -/
theorem shift?_eq_some {k : Nat} {n raw : UInt64} (h : n.toNat * 10 ^ k = raw.toNat) :
    shift? k n = some raw := by
  induction k generalizing n with
  | zero =>
    have hsame : n = raw := UInt64.toNat_inj.mp (by simpa using h)
    rw [shift?, hsame]
  | succ k ih =>
    have hle : n.toNat * 10 ≤ raw.toNat := by
      rw [← h, Nat.pow_succ']
      exact Nat.mul_le_mul_left _ (Nat.le_mul_of_pos_right 10 (Nat.pow_pos (by decide)))
    have hword := UInt64.toNat_ofNat_of_lt' (Nat.lt_of_le_of_lt hle raw.toNat_lt_size)
    have hfirst : checkedMul n 10 = some (UInt64.ofNat (n.toNat * 10)) :=
      checkedMul_eq_some_iff.mpr hword.symm
    rw [shift?, hfirst, Option.bind_eq_bind, Option.bind_some]
    apply ih
    rw [hword, ← h, Nat.pow_succ', Nat.mul_assoc]

/-- The places of an amount, filled up with zeros, count less than a whole unit. -/
theorem fraction_lt {fraction : List Char} {k : Nat} (h : fraction.all isDigit)
    (hlength : fraction.length ≤ k) :
    valueOf fraction * 10 ^ (k - fraction.length) < 10 ^ k := by
  calc valueOf fraction * 10 ^ (k - fraction.length)
      < 10 ^ fraction.length * 10 ^ (k - fraction.length) :=
        Nat.mul_lt_mul_of_pos_right (valueOf_lt h) (Nat.pow_pos (by decide))
    _ = 10 ^ k := by rw [← Nat.pow_add, Nat.add_sub_cancel' hlength]

/-- The places of an amount are a word, and stay one when they are filled up with zeros. -/
theorem places_eq_some {fraction : List Char} {k : Nat} (hk : k ≤ 8)
    (h : fraction.all isDigit) (hlength : fraction.length ≤ k) :
    ∃ places, part? fraction = some places ∧
      (places * UInt64.ofNat (Nat.pow 10 (k - fraction.length))).toNat =
        valueOf fraction * 10 ^ (k - fraction.length) ∧
      shift? (k - fraction.length) places =
        some (places * UInt64.ofNat (Nat.pow 10 (k - fraction.length))) := by
  have hunit := fraction_lt h hlength
  have hpow : 10 ^ k ≤ 10 ^ 8 := Nat.pow_le_pow_right (by decide) hk
  have hpos : 0 < 10 ^ (k - fraction.length) := Nat.pow_pos (by decide)
  have hsize : 10 ^ 8 < UInt64.size := by decide
  have hle := Nat.le_mul_of_pos_right (valueOf fraction) hpos
  have hplaces : (UInt64.ofNat (valueOf fraction)).toNat = valueOf fraction :=
    UInt64.toNat_ofNat_of_lt' (by omega)
  have hproduct : (UInt64.ofNat (valueOf fraction) *
      UInt64.ofNat (Nat.pow 10 (k - fraction.length))).toNat =
      valueOf fraction * 10 ^ (k - fraction.length) := by
    rw [UInt64.toNat_mul, hplaces, toNat_pow_ten (by omega), Nat.mod_eq_of_lt]
    exact Nat.lt_trans hunit (Nat.lt_of_le_of_lt hpow hsize)
  refine ⟨_, (part?_eq_some_iff h).mpr hplaces.symm, hproduct, shift?_eq_some ?_⟩
  rw [hplaces, hproduct]

theorem guard_bind_eq_some_iff {α : Type} {p : Prop} [Decidable p] {f : Unit → Option α} {a : α} :
    (guard p >>= f) = some a ↔ p ∧ f () = some a := by
  by_cases h : p
  · have hpass : (guard p : Option Unit) = some () := if_pos h
    rw [hpass]
    simp [h]
  · have hstop : (guard p : Option Unit) = none := if_neg h
    rw [hstop]
    simp [h]

theorem ofChars?_eq_some_iff {digits : UInt8} (h : digits ≤ maxDigits) {l : List Char}
    {raw : UInt64} : ofChars? l digits = some raw ↔ Denotes l digits.toNat raw.toNat := by
  obtain ⟨unit, hunit, hunitNat⟩ := unit?_eq_some h
  have hk : digits.toNat ≤ 8 := UInt8.le_iff_toNat_le.mp h
  obtain ⟨whole, fraction, hparts⟩ : ∃ whole fraction, Parts l whole fraction :=
    ⟨_, _, parts_splitPoint l⟩
  have hread : ofChars? l digits = some raw ↔
      (whole ≠ [] ∨ fraction ≠ []) ∧ (whole.all isDigit ∧ fraction.all isDigit) ∧
      fraction.length ≤ digits.toNat ∧ ∃ units, part? whole = some units ∧
      ∃ places, part? fraction = some places ∧ ∃ product, checkedMul units unit = some product ∧
      Word.checkedAdd product
        (places * UInt64.ofNat (Nat.pow 10 (digits.toNat - fraction.length))) = some raw := by
    rw [ofChars?, hunit, hparts.splitPoint_eq, Option.bind_eq_bind, Option.bind_some]
    dsimp only
    rw [guard_bind_eq_some_iff, guard_bind_eq_some_iff, guard_bind_eq_some_iff]
    simp only [Option.bind_eq_some_iff]
  rw [hread]
  constructor
  · rintro ⟨hsome, ⟨hwhole, hfraction⟩, hlength, units, hunits, places, hplaces, product, hproduct,
      hsum⟩
    obtain ⟨places', hplaces', hscaled, -⟩ := places_eq_some hk hfraction hlength
    cases hplaces.symm.trans hplaces'
    refine .amount whole fraction hparts hsome hwhole hfraction hlength ?_
    rw [← Word.checkedAdd_eq_some_iff.mp hsum, ← checkedMul_eq_some_iff.mp hproduct, hscaled,
      (part?_eq_some_iff hwhole).mp hunits, hunitNat]
  · rintro ⟨whole', fraction', hparts', hsome, hwhole, hfraction, hlength, hraw⟩
    cases hparts'.splitPoint_eq.symm.trans hparts.splitPoint_eq
    obtain ⟨places, hplaces, hscaled, -⟩ := places_eq_some hk hfraction hlength
    have hsize := raw.toNat_lt_size
    -- The amount is a word, so what it is the sum of and the factor in it are words.
    have hunitPos : 0 < 10 ^ digits.toNat := Nat.pow_pos (by decide)
    have hle := Nat.le_mul_of_pos_right (valueOf whole) hunitPos
    have hunits : (UInt64.ofNat (valueOf whole)).toNat = valueOf whole :=
      UInt64.toNat_ofNat_of_lt' (by omega)
    have hproduct : (UInt64.ofNat (valueOf whole * 10 ^ digits.toNat)).toNat =
        valueOf whole * 10 ^ digits.toNat := UInt64.toNat_ofNat_of_lt' (by omega)
    refine ⟨hsome, ⟨hwhole, hfraction⟩, hlength, _, (part?_eq_some_iff hwhole).mpr hunits.symm,
      places, hplaces, UInt64.ofNat (valueOf whole * 10 ^ digits.toNat),
      checkedMul_eq_some_iff.mpr ?_, Word.checkedAdd_eq_some_iff.mpr ?_⟩
    · rw [hunits, hunitNat, hproduct]
    · rw [hproduct, hscaled, hraw]

theorem parse_eq_ok_iff {digits : UInt8} (h : digits ≤ maxDigits) {s : String} {raw : UInt64} :
    parse s digits = .ok raw ↔ Denotes s.toList digits.toNat raw.toNat := by
  rw [← ofChars?_eq_some_iff h, parse]
  cases ofChars? s.toList digits <;> simp

/-- With more than eight places nothing is an amount. -/
theorem parse_eq_error {digits : UInt8} (h : maxDigits < digits) (s : String) :
    parse s digits = .error ⟨s⟩ := by
  have hunit : unit? digits = none := if_neg (UInt8.not_le.mpr h)
  rw [parse, ofChars?, hunit]
  rfl

theorem not_mem_point {l : List Char} (h : l.all isDigit) : '.' ∉ l := fun hmem =>
  absurd (List.all_eq_true.mp h '.' hmem) (by decide)

/-- Only zeros are dropped. -/
theorem dropTrailingZeros_append (l : List Char) :
    ∃ k, dropTrailingZeros l ++ List.replicate k '0' = l := by
  have hzeros : ∀ c ∈ (l.reverse.takeWhile (· = '0')).reverse, c = '0' := by
    simpa using List.all_eq_true.mp (List.all_takeWhile (l := l.reverse) (p := (· = '0')))
  refine ⟨(l.reverse.takeWhile (· = '0')).reverse.length, ?_⟩
  rw [← List.eq_replicate_iff.mpr ⟨rfl, hzeros⟩, dropTrailingZeros, ← List.reverse_append,
    List.takeWhile_append_dropWhile, List.reverse_reverse]

/-- The places that are kept stand for the same part of a whole unit. -/
theorem valueOf_dropTrailingZeros (l : List Char) :
    valueOf (dropTrailingZeros l) * 10 ^ (l.length - (dropTrailingZeros l).length) =
      valueOf l := by
  obtain ⟨k, hk⟩ := dropTrailingZeros_append l
  have hlength : l.length = (dropTrailingZeros l).length + k := by
    rw [← congrArg List.length hk, List.length_append, List.length_replicate]
  rw [hlength, Nat.add_sub_cancel_left, ← valueOf_append_zeros, hk]

/-- What an amount is written as stands for it. -/
theorem denotes_chars {digits : UInt8} (h : digits ≤ maxDigits) (raw : UInt64) :
    Denotes (chars raw digits) digits.toNat raw.toNat := by
  obtain ⟨unit, hunit, hunitNat⟩ := unit?_eq_some h
  have hwhole : (decimal (raw / unit).toNat).all isDigit := all_isDigit_decimal _
  have hunits : valueOf (decimal (raw / unit).toNat) = raw.toNat / 10 ^ digits.toNat := by
    rw [valueOf_decimal, UInt64.toNat_div, hunitNat]
  have hplaces : (raw % unit).toNat = raw.toNat % 10 ^ digits.toNat := by
    rw [UInt64.toNat_mod, hunitNat]
  have hdivision := Nat.div_add_mod' raw.toNat (10 ^ digits.toNat)
  simp only [chars, hunit]
  split
  · next hzero =>
    refine .amount _ [] (.plain _ (not_mem_point hwhole)) (.inl (decimal_ne_nil _)) hwhole rfl
      (Nat.zero_le _) ?_
    rw [hzero, UInt64.toNat_zero] at hplaces
    rw [hunits, valueOf_nil, Nat.zero_mul, hplaces, hdivision]
  · next hne =>
    have hlength := length_lastDigits digits.toNat (raw % unit).toNat
    have hall := all_isDigit_lastDigits digits.toNat (raw % unit).toNat
    have hvalue := valueOf_lastDigits digits.toNat (raw % unit).toNat
    generalize lastDigits digits.toNat (raw % unit).toNat = places at hlength hall hvalue ⊢
    obtain ⟨k, hk⟩ := dropTrailingZeros_append places
    have hkept : (dropTrailingZeros places).all isDigit := by
      rw [← hk, List.all_append, Bool.and_eq_true] at hall
      exact hall.1
    have hshort : (dropTrailingZeros places).length ≤ digits.toNat := by
      rw [← hlength, ← congrArg List.length hk, List.length_append]
      exact Nat.le_add_right _ _
    refine .amount _ _ (.pointed _ _ (not_mem_point hwhole)) (.inl (decimal_ne_nil _)) hwhole
      hkept hshort ?_
    have hdropped := valueOf_dropTrailingZeros places
    rw [hlength] at hdropped
    rw [hunits, hdropped, hvalue, hplaces, Nat.mod_mod, hdivision]

/-- Nothing overflows on the way to an amount with so many places: a whole unit is a power of ten,
ten by ten, and the places of any text are a word, also when they are filled up with zeros, ten by
ten. -/
structure Exact (digits : UInt8) : Prop where
  unit : ∃ unit, unit? digits = some unit ∧ unit.toNat = 10 ^ digits.toNat ∧
    shift? digits.toNat 1 = some unit
  places : ∀ fraction : List Char, fraction.all isDigit → fraction.length ≤ digits.toNat →
    ∃ places, part? fraction = some places ∧
      (places * UInt64.ofNat (Nat.pow 10 (digits.toNat - fraction.length))).toNat =
        valueOf fraction * 10 ^ (digits.toNat - fraction.length) ∧
      shift? (digits.toNat - fraction.length) places =
        some (places * UInt64.ofNat (Nat.pow 10 (digits.toNat - fraction.length)))

theorem exact_of_le {digits : UInt8} (h : digits ≤ maxDigits) : Exact digits := by
  obtain ⟨unit, hunit, hunitNat⟩ := unit?_eq_some h
  refine ⟨⟨unit, hunit, hunitNat, shift?_eq_some ?_⟩, fun fraction hall hlength =>
    places_eq_some (UInt8.le_iff_toNat_le.mp h) hall hlength⟩
  rw [hunitNat, UInt64.toNat_one, Nat.one_mul]

/-- With up to eight places a text is read as an amount exactly where it stands for one, nothing on
the way overflows, and what was written is read back. With more places nothing is read. -/
theorem parse_exact (digits : UInt8) :
    (digits ≤ 8 →
      (∀ s raw, parse s digits = .ok raw ↔ Denotes s.toList digits.toNat raw.toNat) ∧
      Exact digits ∧
      ∀ raw, parse (format raw digits) digits = .ok raw) ∧
    (8 < digits → ∀ s, parse s digits = .error ⟨s⟩) := by
  refine ⟨fun h => ⟨fun s raw => parse_eq_ok_iff h, exact_of_le h, fun raw => ?_⟩,
    fun h s => parse_eq_error h s⟩
  rw [parse_eq_ok_iff h, format, String.toList_ofList]
  exact denotes_chars h raw

/-- The largest word with eight places: its text has a point, and leading zeros do not matter. With
one unit more, a sign or nine places there is no amount. -/
theorem parse_exact_largest :
    (8 : UInt8) ≤ 8 ∧ (8 : UInt8) < 9 ∧
    parse "00184467440737.09551615" 8 = .ok Word.max ∧
    Denotes "00184467440737.09551615".toList 8 Word.max.toNat ∧
    ¬ (∃ raw, parse "184467440737.09551616" 8 = .ok raw) ∧
    parse (format Word.max 8) 8 = .ok Word.max ∧
    parse "1" 9 = .error ⟨"1"⟩ := by
  obtain ⟨hreads, -, hback⟩ := (parse_exact 8).1 (by decide)
  have hlargest : Denotes "00184467440737.09551615".toList 8 Word.max.toNat :=
    .amount "00184467440737".toList "09551615".toList
      (.pointed "00184467440737".toList "09551615".toList (by decide))
      (by decide) (by decide) (by decide) (by decide) (by decide)
  refine ⟨by decide, by decide, (hreads _ _).mpr hlargest, hlargest, ?_, hback _,
    (parse_exact 9).2 (by decide) "1"⟩
  rintro ⟨raw, hraw⟩
  have hnone : parse "184467440737.09551616" 8 = .error ⟨"184467440737.09551616"⟩ := by decide
  cases hnone.symm.trans hraw

end Amount

end CivicLedger
