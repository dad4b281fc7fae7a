import Mathlib.Data.List.Infix
import CivicLedger.Proofs.Json.Flat

/-!
# Objects that are torn

A part of a printed object has no value, whatever follows it, as long as what follows neither goes
on with the object nor lets a text or a value end where the object would go on. So text behind a
part that was left in a file does not complete it.
-/

namespace CivicLedger.Json

open CivicLedger.Json.Tree

variable {x rest : Input} {fuel : Nat}

/-- An object may go on so behind a name or a value. -/
def GoesOn (i : Input) : Prop := ∃ c rest, skip i = c :: rest ∧ (c = ':' ∨ c = ',' ∨ c = '\x7d')

/-- What goes on with no object, at whatever place in a text or before a value it stands. -/
structure Foreign (x : Input) : Prop where
  begins : x = [] ∨ ∃ rest, x = '\x7b' :: rest
  text : ∀ {t rest}, readGlyphs x = some (t, rest) → ¬ GoesOn rest
  value : ∀ {fuel t rest}, readValue fuel x = some (t, rest) → ¬ GoesOn rest

theorem foreign_nil : Foreign [] := by
  refine ⟨.inl rfl, ?_, ?_⟩
  · rintro t rest ⟨⟩
  · intro fuel t rest hread
    cases fuel with
    | zero => cases hread
    | succ fuel => cases hread

theorem Foreign.skip_eq (hx : Foreign x) : skip x = x := by
  rcases hx.begins with rfl | ⟨rest, rfl⟩
  · rfl
  · exact skip_cons (by decide) rest

theorem Foreign.not_goesOn (hx : Foreign x) : ¬ GoesOn x := by
  rintro ⟨c, rest, hskip, hc⟩
  rw [hx.skip_eq] at hskip
  rcases hx.begins with rfl | ⟨rest', rfl⟩
  · cases hskip
  · cases hskip
    revert hc
    decide

theorem isPrefix_append_cons {α : Type} {q a b : List α} {c : α} (h : q <+: a ++ c :: b) :
    q <+: a ∨ ∃ q', q = a ++ c :: q' ∧ q' <+: b := by
  rcases List.prefix_or_prefix_of_prefix h (List.prefix_append a (c :: b)) with hq | ⟨q', rfl⟩
  · exact .inl hq
  rcases List.prefix_cons_iff.mp ((List.prefix_append_right_inj a).mp h) with rfl | ⟨q', rfl, hq'⟩
  · exact .inl (by simp)
  · exact .inr ⟨q', rfl, hq'⟩

theorem readGlyphs_append {l : List Char} (h : ∀ c ∈ l, IsPlain c) (x : Input) :
    readGlyphs (l ++ x) = (readGlyphs x).map fun r => (l.map Glyph.char ++ r.1, r.2) := by
  induction l with
  | nil => simp
  | cons c l ih =>
    rcases List.forall_mem_cons.mp h with ⟨⟨hquote, hslash, hprint⟩, hl⟩
    have hlarge : ¬ c.toNat < 32 := Nat.not_lt.mpr hprint
    rw [List.cons_append, readGlyphs, ih hl]
    · cases readGlyphs x <;> simp [hlarge, hslash]
    all_goals simp_all

theorem Foreign.readGlyphs_part (hx : Foreign x) {s q : List Char} (hs : ∀ c ∈ s, IsPlain c)
    (hq : q <+: s) {t : List Glyph} (h : readGlyphs (q ++ x) = some (t, rest)) : ¬ GoesOn rest := by
  rw [readGlyphs_append fun c hc => hs c (hq.subset hc)] at h
  rcases Option.map_eq_some_iff.mp h with ⟨r, hread, hr⟩
  cases hr
  exact hx.text hread

/-- A number is read up to text that is not part of it. -/
theorem Foreign.readNumber_part (hx : Foreign x) {ds : List Char} (hds : ∀ d ∈ ds, isDigit d = true)
    {n : Numeral} (h : readNumber false (ds ++ x) = some (n, rest)) : rest = x := by
  have hread : readDigits (ds ++ x) = (ds, x) := by
    rw [readDigits, List.takeWhile_append_of_pos hds, List.dropWhile_append_of_pos hds]
    rcases hx.begins with rfl | ⟨rest, rfl⟩
    · simp
    · have hstop : isDigit '\x7b' = false := by decide
      simp [hstop]
  rw [readNumber, hread] at h
  simp only [Option.bind_eq_bind] at h
  split at h
  · cases h
  rcases hx.begins with rfl | ⟨rest', rfl⟩
  all_goals
    simp only [readFraction] at h
    cases h
    rfl

/-- A part of a value is read as none that an object could go on behind. -/
theorem Foreign.readValue_part (hx : Foreign x) {v : Json} (hv : Flat v) {q : List Char}
    (hq : q <+: (print v).toList) {t : Tree} (h : readValue fuel (q ++ x) = some (t, rest)) :
    ¬ GoesOn rest := by
  cases q with
  | nil => exact hx.value h
  | cons c q =>
    cases fuel with
    | zero => cases h
    | succ fuel =>
      cases hv with
      | @text s hs =>
        rw [print, toList_quote hs, List.cons_prefix_cons] at hq
        rcases hq with ⟨rfl, hq⟩
        have h : (readGlyphs (q ++ x)).map (fun r => (Tree.text r.1, r.2)) = some (t, rest) := h
        rcases Option.map_eq_some_iff.mp h with ⟨r, hread, hr⟩
        cases hr
        rcases isPrefix_append_cons hq with hq | ⟨q', rfl, hend⟩
        · exact hx.readGlyphs_part hs hq hread
        · rw [List.prefix_nil.mp hend, List.append_assoc, List.singleton_append,
            readGlyphs_plain hs] at hread
          cases hread
          exact hx.not_goesOn
      | nat n =>
        rw [print, toList_toString] at hq
        have hdigits : ∀ d ∈ c :: q, isDigit d = true := fun d hd =>
          List.all_eq_true.mp (Text.all_isDigit_decimal n.toNat) d (hq.subset hd)
        rw [List.cons_append, readValue_number (hdigits c List.mem_cons_self)] at h
        rcases Option.map_eq_some_iff.mp h with ⟨r, hread, hr⟩
        cases hr
        rw [hx.readNumber_part hdigits hread]
        exact hx.not_goesOn

theorem readFields_of_not_goesOn {i : Input} {name : List Glyph} {value : Tree}
    (h : ¬ GoesOn rest) (hvalue : readValue fuel i = some (value, rest)) :
    (do
      let (value, rest) ← readValue fuel i
      match skip rest with
      | ',' :: rest =>
        let (fields, rest) ← readFields fuel rest
        return ((name, value) :: fields, rest)
      | '\x7d' :: rest => return ([(name, value)], rest)
      | _ => none) = (none : Option (List (List Glyph × Tree) × Input)) := by
  rw [hvalue]
  simp only [Option.bind_eq_bind, Option.bind_some]
  split
  next hskip => exact absurd ⟨_, _, hskip, .inr (.inl rfl)⟩ h
  next hskip => exact absurd ⟨_, _, hskip, .inr (.inr rfl)⟩ h
  next => rfl

/-- No field is read from a part of one, nor from all of it where nothing ends it. -/
theorem Foreign.readFields_field_part (hx : Foreign x) {e : String × Json} (he : FlatField e)
    {q : List Char} (hq : q <+: (quote e.1 ++ ":" ++ print e.2).toList) :
    readFields fuel (q ++ x) = none := by
  rcases he with ⟨hname, hflat⟩
  cases fuel with
  | zero => rfl
  | succ fuel =>
    have htext : (quote e.1 ++ ":" ++ print e.2).toList =
        '"' :: (e.1.toList ++ '"' :: ':' :: (print e.2).toList) := by
      simp [toList_quote hname]
    rw [htext] at hq
    rcases List.prefix_cons_iff.mp hq with rfl | ⟨q, rfl, hinside⟩
    · rw [List.nil_append, readFields, hx.skip_eq]
      rcases hx.begins with rfl | ⟨rest, rfl⟩ <;> rfl
    rw [List.cons_append, readFields, skip_cons (by decide)]
    rcases isPrefix_append_cons hinside with hinside | ⟨q, rfl, hcolon⟩
    · cases hread : readGlyphs (q ++ x) with
      | none => simp [hread]
      | some r =>
        have hstop := hx.readGlyphs_part hname hinside hread
        simp only [hread, Option.bind_eq_bind, Option.bind_some]
        split
        next hskip => exact absurd ⟨_, _, hskip, .inl rfl⟩ hstop
        next => rfl
    have hglyphs := readGlyphs_plain hname (q ++ x)
    rw [List.append_assoc, List.cons_append]
    simp only [hglyphs, Option.bind_eq_bind, Option.bind_some]
    rcases List.prefix_cons_iff.mp hcolon with rfl | ⟨q, rfl, hvalue⟩
    · rw [List.nil_append, hx.skip_eq]
      rcases hx.begins with rfl | ⟨rest, rfl⟩ <;> rfl
    rw [List.cons_append, skip_cons (by decide)]
    cases hread : readValue fuel (q ++ x) with
    | none => simp [hread]
    | some r => exact readFields_of_not_goesOn (hx.readValue_part hflat hvalue hread) hread

/-- One step does not reach a value. -/
theorem readFields_one (i : Input) : readFields 1 i = none := by
  rw [readFields]
  split
  · next rest _ =>
    cases readGlyphs rest with
    | none => rfl
    | some r =>
      simp only [Option.bind_eq_bind, Option.bind_some]
      split <;> rfl
  · rfl

/-- Fields are read from a part of an object only where it is all of it. -/
theorem Foreign.readFields_part (hx : Foreign x) {fields : List (String × Json)} (hne : fields ≠ [])
    (hflat : ∀ e ∈ fields, FlatField e) {q : List Char}
    (hq : q <+: (",".intercalate (printFields fields)).toList ++ ['\x7d'])
    {t : List (List Glyph × Tree)} (h : readFields fuel (q ++ x) = some (t, rest)) :
    q = (",".intercalate (printFields fields)).toList ++ ['\x7d'] ∧ rest = x := by
  induction fields generalizing q fuel t with
  | nil => exact absurd rfl hne
  | cons e others ih =>
    rcases List.forall_mem_cons.mp hflat with ⟨he, hothers⟩
    obtain ⟨fuel, rfl⟩ : ∃ k, fuel = k + 2 := by
      match fuel with
      | 0 => cases h
      | 1 =>
        rw [readFields_one] at h
        cases h
      | k + 2 => exact ⟨k, rfl⟩
    have hmore : ¬ q <+: (quote e.1 ++ ":" ++ print e.2).toList := by
      intro hfield
      rw [hx.readFields_field_part he hfield] at h
      cases h
    cases others with
    | nil =>
      rw [printFields, printFields, String.intercalate_singleton] at hq ⊢
      rcases isPrefix_append_cons hq with hq | ⟨tail, hsplit, hend⟩
      · exact absurd hq hmore
      rw [List.prefix_nil.mp hend] at hsplit
      rw [hsplit, List.append_assoc, List.singleton_append,
        readFields_field he ⟨_, _, rfl, .inr rfl⟩, skip_cons (by decide)] at h
      cases h
      exact ⟨hsplit, rfl⟩
    | cons e' others =>
      have htext : (",".intercalate (printFields (e :: e' :: others))).toList ++ ['\x7d'] =
          (quote e.1 ++ ":" ++ print e.2).toList ++
            ',' :: ((",".intercalate (printFields (e' :: others))).toList ++ ['\x7d']) := by
        rw [printFields, String.intercalate_cons_of_ne_nil (by simp [printFields])]
        simp
      rw [htext] at hq ⊢
      rcases isPrefix_append_cons hq with hq | ⟨later, hsplit, hlater⟩
      · exact absurd hq hmore
      rw [hsplit, List.append_assoc, List.cons_append, readFields_field he ⟨_, _, rfl, .inl rfl⟩,
        skip_cons (by decide)] at h
      rcases Option.bind_eq_some_iff.mp h with ⟨r, hread, hr⟩
      cases hr
      rcases ih (List.cons_ne_nil _ _) hothers hlater hread with ⟨hall, hrest⟩
      exact ⟨by rw [hsplit, hall], hrest⟩

/-- A part of an object that begins it has a value only where it is all of it. -/
theorem Foreign.readValue_object_part (hx : Foreign x) {fields : List (String × Json)}
    (hne : fields ≠ []) (hflat : ∀ e ∈ fields, FlatField e) {q : List Char} (hsome : q ≠ [])
    (hq : q <+: (print (.object fields)).toList) {t : Tree}
    (h : readValue fuel (q ++ x) = some (t, rest)) :
    q = (print (.object fields)).toList ∧ rest = x := by
  have htext : (print (.object fields)).toList =
      '\x7b' :: ((",".intercalate (printFields fields)).toList ++ ['\x7d']) := by
    simp [print]
  rw [htext] at hq ⊢
  rcases List.prefix_cons_iff.mp hq with rfl | ⟨q, rfl, hinside⟩
  · exact absurd rfl hsome
  cases fuel with
  | zero => cases h
  | succ fuel =>
    rw [List.cons_append, readValue, skip_cons (by decide)] at h
    -- Neither the fields nor what stands behind the part closes the object at once.
    have hopen : skip (q ++ x) = q ++ x ∧ ∀ l, q ++ x ≠ '\x7d' :: l := by
      cases q with
      | nil =>
        refine ⟨hx.skip_eq, ?_⟩
        rcases hx.begins with rfl | ⟨l, rfl⟩ <;> simp
      | cons c q =>
        rcases printFields_begins hne with ⟨l, hl⟩
        rw [hl, List.cons_append, List.cons_prefix_cons] at hinside
        rcases hinside with ⟨rfl, -⟩
        exact ⟨skip_cons (by decide) _, fun l => by simp⟩
    simp only [hopen.1] at h
    split at h
    next hclose => exact absurd hclose (hopen.2 _)
    next =>
      rcases Option.map_eq_some_iff.mp h with ⟨r, hread, hr⟩
      cases hr
      rcases hx.readFields_part hne hflat hinside hread with ⟨rfl, hrest⟩
      exact ⟨rfl, hrest⟩

end CivicLedger.Json
