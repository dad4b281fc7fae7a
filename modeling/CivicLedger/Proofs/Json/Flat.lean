import CivicLedger.Json.Value
import CivicLedger.Text.DigitsLemmas

/-!
# Objects without nesting

An object of texts and whole numbers is read back from how it is printed, as long as its texts need
no escapes and no two of its fields have one name.
-/

namespace CivicLedger.Json

open CivicLedger.Json.Tree

def IsPlain (c : Char) : Prop := c ≠ '"' ∧ c ≠ '\\' ∧ 32 ≤ c.toNat

instance : DecidablePred IsPlain := fun _ => inferInstanceAs (Decidable (_ ∧ _ ∧ _))

theorem escapeChar_of_plain {c : Char} (h : IsPlain c) : escapeChar c = [c] := by
  rcases h with ⟨hquote, hslash, hprint⟩
  have hne {d : Char} (hd : d.toNat < 32) : c ≠ d := by
    rintro rfl
    omega
  have hlarge : ¬ c.toNat < 32 := Nat.not_lt.mpr hprint
  rw [escapeChar, if_neg hquote, if_neg hslash, if_neg (hne (by decide)), if_neg (hne (by decide)),
    if_neg (hne (by decide)), if_neg (hne (by decide)), if_neg (hne (by decide)), if_neg hlarge]

theorem toList_quote {s : String} (h : ∀ c ∈ s.toList, IsPlain c) :
    (quote s).toList = '"' :: (s.toList ++ ['"']) := by
  have hplain : s.toList.flatMap escapeChar = s.toList := by
    generalize s.toList = l at h
    induction l with
    | nil => rfl
    | cons c l ih =>
      rcases List.forall_mem_cons.mp h with ⟨hc, hl⟩
      rw [List.flatMap_cons, escapeChar_of_plain hc, ih hl, List.singleton_append]
  simp [quote, hplain]

theorem readGlyphs_plain {l : List Char} (h : ∀ c ∈ l, IsPlain c) (rest : List Char) :
    readGlyphs (l ++ '"' :: rest) = some (l.map Glyph.char, rest) := by
  induction l with
  | nil => rfl
  | cons c l ih =>
    rcases List.forall_mem_cons.mp h with ⟨⟨hquote, hslash, hprint⟩, hl⟩
    rw [List.cons_append, readGlyphs, ih hl]
    · have hlarge : ¬ c.toNat < 32 := Nat.not_lt.mpr hprint
      simp [hlarge, hslash]
    all_goals simp_all

theorem textOf?_chars (l : List Char) : textOf? (l.map Glyph.char) = some (String.ofList l) := by
  have hchars : charsOf? (l.map Glyph.char) = some l := by
    induction l with
    | nil => rfl
    | cons c l ih => rw [List.map_cons, charsOf?, ih, Option.map_some]
  rw [textOf?, hchars, Option.map_some]

theorem toList_toString (n : Nat) : (toString n).toList = Text.decimal n := by
  have hdigit : ∀ d < 10, Nat.digitChar d = Text.digitOf d := by decide
  have hrepr : (toString n).toList = Nat.toDigits 10 n := String.toList_ofList
  rw [hrepr]
  clear hrepr
  induction n using Nat.strongRecOn with
  | _ n ih =>
    rw [Nat.toDigits_eq_if (by decide), Text.decimal]
    split
    next hlt => rw [hdigit n hlt]
    next hge =>
      rw [ih (n / 10) (by omega), hdigit _ (Nat.mod_lt n (by decide)), Text.digitOf,
        Nat.mod_mod, Text.digitOf]

/-- Only the number zero begins with a zero. -/
theorem head?_decimal {n : Nat} (h : 10 ≤ n) : (Text.decimal n).head? ≠ some '0' := by
  induction n using Nat.strongRecOn with
  | _ n ih =>
    have hfirst : (Text.decimal n).head? = (Text.decimal (n / 10)).head? := by
      rcases List.exists_cons_of_ne_nil (Text.decimal_ne_nil (n / 10)) with ⟨c, rest, hc⟩
      rw [Text.decimal, if_neg (Nat.not_lt.mpr h), hc]
      rfl
    rw [hfirst]
    by_cases hlarge : 10 ≤ n / 10
    · exact ih (n / 10) (by omega) hlarge
    · have hdigit : ∀ d < 10, 0 < d → Text.digitOf d ≠ '0' := by decide
      have hlt := Nat.not_le.mp hlarge
      rw [Text.decimal, if_pos hlt, List.head?_cons]
      exact fun hzero => hdigit (n / 10) hlt (by omega) (Option.some.inj hzero)

def numeral (n : Nat) : Numeral := ⟨false, Text.decimal n, [], none⟩

def EndsNumber (i : Input) : Prop := ∃ c rest, i = c :: rest ∧ (c = ',' ∨ c = '\x7d')

theorem readNumber_decimal (n : Nat) {i : Input} (h : EndsNumber i) :
    readNumber false (Text.decimal n ++ i) = some (numeral n, i) := by
  rcases h with ⟨c, rest, rfl, hc⟩
  have hstop : isDigit c = false := by rcases hc with rfl | rfl <;> decide
  have hdigits : ∀ d ∈ Text.decimal n, isDigit d = true :=
    List.all_eq_true.mp (Text.all_isDigit_decimal n)
  have hread : readDigits (Text.decimal n ++ c :: rest) = (Text.decimal n, c :: rest) := by
    rw [readDigits, List.takeWhile_append_of_pos hdigits, List.dropWhile_append_of_pos hdigits]
    simp [hstop]
  have hzero : ¬ ((Text.decimal n).head? = some '0' ∧ 1 < (Text.decimal n).length) := by
    rintro ⟨hhead, hlength⟩
    by_cases hlarge : 10 ≤ n
    · exact head?_decimal hlarge hhead
    · rw [Text.decimal, if_pos (Nat.not_le.mp hlarge)] at hlength
      exact absurd hlength (by simp)
  have hsome : (Text.decimal n).isEmpty = false := by
    simp [Text.decimal_ne_nil]
  have hfraction : readFraction (c :: rest) = some ([], c :: rest) := by
    rcases hc with rfl | rfl <;> rfl
  have hexponent : ¬ (c = 'e' ∨ c = 'E') := by rcases hc with rfl | rfl <;> decide
  simp [readNumber, hread, hsome, hzero, hfraction, hexponent, numeral]

theorem le_foldl_digits (l : List Char) (n : Nat) :
    n ≤ l.foldl (fun n c => n * 10 + Text.digitValue c) n := by
  induction l generalizing n with
  | nil => exact Nat.le_refl n
  | cons c l ih =>
    have hrest := ih (n * 10 + Text.digitValue c)
    rw [List.foldl_cons]
    omega

/-- Digits that fit into a word together are all of the significand. -/
theorem significand_eq {l : List Char} {n : Nat} (taken : Nat)
    (h : l.foldl (fun n c => n * 10 + Text.digitValue c) n < UInt64.size) :
    significand l n taken =
      (l.foldl (fun n c => n * 10 + Text.digitValue c) n, taken + l.length, []) := by
  induction l generalizing n taken with
  | nil => rfl
  | cons c l ih =>
    rw [List.foldl_cons] at h ⊢
    have hnext := Nat.lt_of_le_of_lt (le_foldl_digits l _) h
    rw [significand, if_pos hnext, ih (taken + 1) h, List.length_cons, Nat.add_right_comm,
      Nat.add_assoc]

theorem ofNumeral?_numeral (n : UInt64) : ofNumeral? (numeral n.toNat) = some (.nat n) := by
  have hvalue : (Text.decimal n.toNat).foldl (fun n c => n * 10 + Text.digitValue c) 0 = n.toNat :=
    Text.valueOf_decimal n.toNat
  have hfits := n.toNat_lt_size
  rw [← hvalue] at hfits
  have hall := significand_eq 0 hfits
  rw [hvalue] at hall
  simp [ofNumeral?, numeral, hall]

/-- A text without escapes or a whole number. -/
inductive Flat : Json → Prop where
  | text {s : String} (h : ∀ c ∈ s.toList, IsPlain c) : Flat (.text s)
  | nat (n : UInt64) : Flat (.nat n)

def written : Json → Tree
  | .text s => .text (s.toList.map Glyph.char)
  | .nat n => .number (numeral n.toNat)
  | _ => .null

theorem readValue_number {c : Char} {l : List Char} (hc : Text.isDigit c = true) (fuel : Nat) :
    readValue (fuel + 1) (c :: l) =
      (readNumber false (c :: l)).map fun (n, rest) => (.number n, rest) := by
  have hne {d : Char} (hd : Text.isDigit d = false) : c ≠ d := by
    rintro rfl
    rw [hc] at hd
    cases hd
  have hskip : skip (c :: l) = c :: l := by
    have hspace : isSpace c = false := by
      simp [isSpace, hne (d := ' ') (by decide), hne (d := '\n') (by decide),
        hne (d := '\t') (by decide), hne (d := '\r') (by decide)]
    simp [skip, hspace]
  rw [readValue, hskip]
  split
  all_goals first | rfl | (next heq => exact absurd (List.cons.inj heq).1 (hne (by decide)))

theorem readValue_print {v : Json} (hv : Flat v) {i : Input} (hi : EndsNumber i) (fuel : Nat) :
    readValue (fuel + 1) ((print v).toList ++ i) = some (written v, i) := by
  cases hv with
  | @text s h =>
    rw [print, toList_quote h, List.cons_append, List.append_assoc]
    have hread := readGlyphs_plain h i
    change (readGlyphs (s.toList ++ '"' :: i)).map _ = _
    rw [hread]
    rfl
  | nat n =>
    rcases List.exists_cons_of_ne_nil (Text.decimal_ne_nil n.toNat) with ⟨c, l, hc⟩
    have hdigit : Text.isDigit c = true := by
      refine List.all_eq_true.mp (Text.all_isDigit_decimal n.toNat) c ?_
      rw [hc]
      exact List.mem_cons_self
    have hread := readNumber_decimal n.toNat hi
    rw [print, toList_toString, hc, List.cons_append, readValue_number hdigit, ← List.cons_append,
      ← hc, hread]
    rfl

theorem ofTree?_written {v : Json} (hv : Flat v) (depth : Nat) :
    ofTree? depth (written v) = some v := by
  cases hv with
  | @text s h => rw [written, ofTree?, textOf?_chars, String.ofList_toList, Option.map_some]
  | nat n => rw [written, ofTree?, ofNumeral?_numeral]

def FlatField (e : String × Json) : Prop := (∀ c ∈ e.1.toList, IsPlain c) ∧ Flat e.2

def writtenField (e : String × Json) : List Glyph × Tree :=
  (e.1.toList.map Glyph.char, written e.2)

theorem skip_cons {c : Char} (h : isSpace c = false) (l : Input) : skip (c :: l) = c :: l := by
  simp [skip, h]

/-- A field is read up to what ends it. -/
theorem readFields_field {e : String × Json} (he : FlatField e) {i : Input} (hi : EndsNumber i)
    (fuel : Nat) :
    readFields (fuel + 2) ((quote e.1 ++ ":" ++ print e.2).toList ++ i) =
      match skip i with
      | ',' :: rest =>
        (readFields (fuel + 1) rest).bind fun r => some (writtenField e :: r.1, r.2)
      | '\x7d' :: rest => some ([writtenField e], rest)
      | _ => none := by
  rcases he with ⟨hname, hvalue⟩
  have hglyphs := readGlyphs_plain hname (':' :: ((print e.2).toList ++ i))
  have hread := readValue_print hvalue hi fuel
  have hinput : (quote e.1 ++ ":" ++ print e.2).toList ++ i =
      '"' :: (e.1.toList ++ '"' :: (':' :: ((print e.2).toList ++ i))) := by
    simp [toList_quote hname]
  rw [hinput, readFields, skip_cons (by decide)]
  simp only [hglyphs, skip_cons (c := ':') (by decide), hread, Option.bind_eq_bind,
    Option.bind_some]
  rfl

theorem readFields_print {fields : List (String × Json)} (hne : fields ≠ [])
    (hflat : ∀ e ∈ fields, FlatField e) (fuel : Nat) (rest : Input) :
    readFields (fuel + fields.length + 1)
        ((",".intercalate (printFields fields)).toList ++ '\x7d' :: rest) =
      some (fields.map writtenField, rest) := by
  induction fields with
  | nil => exact absurd rfl hne
  | cons e others ih =>
    rcases List.forall_mem_cons.mp hflat with ⟨he, hothers⟩
    rw [List.length_cons, ← Nat.add_assoc]
    cases others with
    | nil =>
      have hend : EndsNumber ('\x7d' :: rest) := ⟨_, _, rfl, .inr rfl⟩
      rw [printFields, printFields, String.intercalate_singleton, readFields_field he hend,
        skip_cons (by decide)]
      rfl
    | cons e' others =>
      have hmore := ih (List.cons_ne_nil _ _) hothers
      have hinput (s t : String) : (s ++ "," ++ t).toList ++ '\x7d' :: rest =
          s.toList ++ ',' :: (t.toList ++ '\x7d' :: rest) := by
        simp
      have hcomma : EndsNumber (',' :: ((",".intercalate (printFields (e' :: others))).toList ++
          '\x7d' :: rest)) := ⟨_, _, rfl, .inl rfl⟩
      rw [printFields, String.intercalate_cons_of_ne_nil (by simp [printFields]), hinput,
        readFields_field he hcomma, skip_cons (by decide)]
      simp only [hmore, Option.bind_some, List.map_cons]

theorem length_le_printFields (fields : List (String × Json)) :
    fields.length ≤ (",".intercalate (printFields fields)).toList.length := by
  induction fields with
  | nil => exact Nat.zero_le _
  | cons e others ih =>
    cases others with
    | nil => simp [printFields, quote]
    | cons e' others =>
      rw [printFields, String.intercalate_cons_of_ne_nil (by simp [printFields])]
      simp only [String.toList_append, List.length_append, List.length_cons] at ih ⊢
      have hcomma : (",".toList).length = 1 := rfl
      omega

theorem printFields_begins {fields : List (String × Json)} (hne : fields ≠ []) :
    ∃ l, (",".intercalate (printFields fields)).toList = '"' :: l := by
  rcases List.exists_cons_of_ne_nil hne with ⟨e, others, rfl⟩
  cases others with
  | nil => simp [printFields, quote]
  | cons e' others =>
    rw [printFields, String.intercalate_cons_of_ne_nil (by simp [printFields])]
    simp [quote]

theorem readValue_print_object {fields : List (String × Json)} (hne : fields ≠ [])
    (hflat : ∀ e ∈ fields, FlatField e) (fuel : Nat) (rest : Input) :
    readValue (fuel + fields.length + 2) ((print (.object fields)).toList ++ rest) =
      some (.object (fields.map writtenField), rest) := by
  have hread := readFields_print hne hflat fuel rest
  rcases printFields_begins hne with ⟨l, hl⟩
  rw [hl, List.cons_append] at hread
  have hinput : (print (.object fields)).toList ++ rest =
      '\x7b' :: '"' :: (l ++ '\x7d' :: rest) := by
    simp [print, hl]
  rw [hinput, readValue, skip_cons (by decide)]
  simp only [skip_cons (c := '"') (by decide)]
  change (readFields _ _).map _ = _
  rw [hread]
  rfl

theorem treeOfText?_print {fields : List (String × Json)} (hne : fields ≠ [])
    (hflat : ∀ e ∈ fields, FlatField e) :
    Tree.ofText? (print (.object fields)) = some (.object (fields.map writtenField)) := by
  have hlength : fields.length ≤ (print (.object fields)).toList.length := by
    have hfields := length_le_printFields fields
    simp only [print, String.toList_append, List.length_append]
    omega
  have hfuel : 2 * (print (.object fields)).toList.length + 2 =
      (2 * (print (.object fields)).toList.length - fields.length) + fields.length + 2 := by
    omega
  have hread := readValue_print_object hne hflat
    (2 * (print (.object fields)).toList.length - fields.length) []
  rw [List.append_nil, ← hfuel] at hread
  rw [Tree.ofText?, ofChars?, hread]
  rfl

theorem setField_of_new {name : String} {done : List (String × Json)}
    (h : name ∉ done.map Prod.fst) (v : Json) : setField name v done = done ++ [(name, v)] := by
  induction done with
  | nil => rfl
  | cons e rest ih =>
    rw [List.map_cons, List.mem_cons, not_or] at h
    rw [setField, if_neg (Ne.symm h.1), ih h.2, List.cons_append]

theorem ofFields?_written {fields done : List (String × Json)} (depth : Nat)
    (hflat : ∀ e ∈ fields, FlatField e) (hnames : ((done ++ fields).map Prod.fst).Nodup) :
    ofFields? depth (fields.map writtenField) done = some (done ++ fields) := by
  induction fields generalizing done with
  | nil => rw [List.map_nil, ofFields?, List.append_nil]
  | cons e rest ih =>
    rcases List.forall_mem_cons.mp hflat with ⟨⟨-, hvalue⟩, hrest⟩
    rw [List.append_cons] at hnames
    have hnew : e.1 ∉ done.map Prod.fst := by
      rw [List.map_append, List.map_append] at hnames
      have hfront := (List.nodup_append.mp hnames).1
      intro hmem
      exact (List.nodup_append.mp hfront).2.2 _ hmem _ (by simp) rfl
    rw [List.map_cons, writtenField, ofFields?, textOf?_chars, String.ofList_toList,
      ofTree?_written hvalue]
    simp only [Option.bind_eq_bind, Option.bind_some]
    rw [setField_of_new hnew, ih hrest hnames, List.append_assoc, List.singleton_append]

/-- An object of plain texts and whole numbers is read back. -/
theorem ofText?_print {fields : List (String × Json)} (hne : fields ≠ [])
    (hflat : ∀ e ∈ fields, FlatField e) (hnames : (fields.map Prod.fst).Nodup) :
    ofText? (print (.object fields)) = some (.object fields) := by
  have hfields : ofFields? 126 (fields.map writtenField) [] = some ([] ++ fields) :=
    ofFields?_written 126 hflat hnames
  rw [ofText?, treeOfText?_print hne hflat]
  change (ofFields? 126 (fields.map writtenField) []).map object = _
  rw [hfields]
  rfl

end CivicLedger.Json
