import CivicLedger.Bytes.HexLemmas
import CivicLedger.Host.Outbox
import CivicLedger.Proofs.Json.Torn
import CivicLedger.Proofs.State.Layout

/-!
# Lines of the outbox

A line tells its entry. A part of a line tells nothing, whatever lines or parts follow it: what is
read as an entry is a line as it was written.
-/

namespace CivicLedger.OutboxEntry

open Json (IsPlain FlatField Foreign GoesOn)

theorem forall_mem_encode {P : Char → Prop} (h : ∀ n < 16, P (Hex.digit n)) (b : Bytes) :
    ∀ c ∈ (Hex.encode b).toList, P c := by
  intro c hc
  rw [Hex.encode, String.toList_ofList, List.mem_flatMap] at hc
  rcases hc with ⟨x, -, hc⟩
  have hx := x.toNat_lt
  simp only [Hex.digits, List.mem_cons, List.not_mem_nil, or_false] at hc
  rcases hc with rfl | rfl
  · exact h _ (by omega)
  · exact h _ (by omega)

theorem isPlain_encode (b : Bytes) : ∀ c ∈ (Hex.encode b).toList, IsPlain c :=
  forall_mem_encode (by decide) b

theorem bytes?_ofBytes (b : Bytes) : Interchange.bytes? (Interchange.ofBytes b) = some b := by
  change (Hex.decode (Hex.encode b)).toOption = some b
  rw [Hex.decode_encode]
  rfl

theorem key?_ofKey (k : KeyId) : Interchange.key? (Interchange.ofKey k) = some k := by
  change (KeyId.ofText (Hex.encode k.bytes.val)).toOption = some k
  rw [KeyId.ofText, identityOfText, Hex.decode_encode]
  simp only [identityOfBytes, FixedBytes.ofBytes?_val]
  rfl

theorem fields_ne_nil (e : OutboxEntry) : e.fields ≠ [] := List.cons_ne_nil _ _

theorem flat_fields (e : OutboxEntry) : ∀ f ∈ e.fields, FlatField f := by
  have hplain : ∀ name ∈ ["id", "payload", "fee", "from"], name.toList.all IsPlain := by decide
  have hname : ∀ name ∈ ["id", "payload", "fee", "from"], ∀ c ∈ name.toList, IsPlain c :=
    fun name hmem c hc => of_decide_eq_true (List.all_eq_true.mp (hplain name hmem) c hc)
  simp only [fields, List.forall_mem_cons]
  refine ⟨⟨hname "id" (by decide), ?_⟩, ⟨hname "payload" (by decide), ?_⟩,
    ⟨hname "fee" (by decide), ?_⟩, ⟨hname "from" (by decide), ?_⟩, by simp⟩
  · exact .text (isPlain_encode _)
  · exact .text (isPlain_encode _)
  · exact .nat _
  · exact .text (isPlain_encode _)

/-- A line tells its entry and no other. -/
theorem ofLine?_line (e : OutboxEntry) : ofLine? e.line = some e := by
  have hnames : (e.fields.map Prod.fst).Nodup := by
    have hlist : ["id", "payload", "fee", "from"].Nodup := by decide
    exact hlist
  have hread : Json.ofText? e.line = some (.object e.fields) :=
    Json.ofText?_print e.fields_ne_nil e.flat_fields hnames
  have hid : Interchange.bytes? (Interchange.ofTx e.id) = some e.id.bytes.val :=
    bytes?_ofBytes e.id.bytes.val
  have hvalue : ofLine? e.line = do
      let id ← FixedBytes.ofBytes? 32 (← Interchange.bytes? (Interchange.ofTx e.id))
      let payload ← Interchange.bytes? (Interchange.ofBytes e.request.payload)
      let sender ← Interchange.key? (Interchange.ofKey e.request.sender)
      return ⟨⟨id⟩, ⟨payload, e.request.fee, sender⟩⟩ := by
    rw [ofLine?, hread]
    rfl
  rw [hvalue, hid, bytes?_ofBytes, key?_ofKey]
  simp only [Option.bind_eq_bind, Option.bind_some, FixedBytes.ofBytes?_val]
  rfl

theorem toList_line (e : OutboxEntry) :
    e.line.toList = "\x7b\"id\":\"".toList ++ (Hex.encode e.id.bytes.val).toList ++
      "\",\"payload\":\"".toList ++ (Hex.encode e.request.payload).toList ++
      "\",\"fee\":".toList ++ Text.decimal e.request.fee.toNat ++
      ",\"from\":\"".toList ++ (Hex.encode e.request.sender.bytes.val).toList ++ "\"\x7d".toList := by
  have hid : (Json.print (Interchange.ofTx e.id)).toList =
      '"' :: ((Hex.encode e.id.bytes.val).toList ++ ['"']) := Json.toList_quote (isPlain_encode _)
  have hpayload : (Json.print (Interchange.ofBytes e.request.payload)).toList =
      '"' :: ((Hex.encode e.request.payload).toList ++ ['"']) := Json.toList_quote (isPlain_encode _)
  have hsender : (Json.print (Interchange.ofKey e.request.sender)).toList =
      '"' :: ((Hex.encode e.request.sender.bytes.val).toList ++ ['"']) :=
    Json.toList_quote (isPlain_encode _)
  have hfee : (Json.print (.nat e.request.fee)).toList = Text.decimal e.request.fee.toNat :=
    Json.toList_toString _
  have hquote : Json.quote "id" = "\"id\"" ∧ Json.quote "payload" = "\"payload\"" ∧
      Json.quote "fee" = "\"fee\"" ∧ Json.quote "from" = "\"from\"" := by decide
  have hline : e.line = "\x7b" ++ ",".intercalate (Json.printFields e.fields) ++ "\x7d" := by
    rw [line, Json.print]
  simp [hline, fields, Json.printFields, hid, hpayload, hsender, hfee, hquote,
    String.intercalate_cons_of_ne_nil]

/-- The characters of a line are bytes, and none of them ends it. -/
theorem printable_line (e : OutboxEntry) : ∀ c ∈ e.line.toList, 32 ≤ c.toNat ∧ c.toNat < 127 := by
  have hcode (b : Bytes) : ∀ c ∈ (Hex.encode b).toList, 32 ≤ c.toNat ∧ c.toNat < 127 :=
    forall_mem_encode (by decide) b
  have hnumber : ∀ c ∈ Text.decimal e.request.fee.toNat, 32 ≤ c.toNat ∧ c.toNat < 127 := by
    intro c hc
    have hdigit := List.all_eq_true.mp (Text.all_isDigit_decimal e.request.fee.toNat) c hc
    rw [Text.isDigit, Bool.and_eq_true, decide_eq_true_eq, decide_eq_true_eq] at hdigit
    exact ⟨Nat.le_trans (by decide) hdigit.1, Nat.lt_of_le_of_lt hdigit.2 (by decide)⟩
  have hliteral {l : List Char} (h : l.all (fun c => 32 ≤ c.toNat && c.toNat < 127) = true) :
      ∀ c ∈ l, 32 ≤ c.toNat ∧ c.toNat < 127 := by
    simpa using h
  rw [toList_line]
  simp only [List.forall_mem_append]
  refine ⟨⟨⟨⟨⟨⟨⟨⟨?_, hcode _⟩, ?_⟩, hcode _⟩, ?_⟩, hnumber⟩, ?_⟩, hcode _⟩, ?_⟩
  all_goals exact hliteral (by decide)

theorem newline_not_mem_line (e : OutboxEntry) : '\n' ∉ e.line.toList := fun h =>
  absurd (e.printable_line _ h).1 (by decide)

/-- Between the brace and the first name there is but a quote. -/
theorem line_begins (e : OutboxEntry) : ∃ l, e.line.toList = '\x7b' :: '"' :: 'i' :: l :=
  ⟨_, by rw [toList_line]; rfl⟩

theorem line_ne_nil (e : OutboxEntry) : e.line.toList ≠ [] := by
  rcases e.line_begins with ⟨l, hl⟩
  rw [hl]
  exact List.cons_ne_nil _ _

theorem readValue_part {e : OutboxEntry} {q x rest : List Char} {fuel : Nat} {t : Json.Tree}
    (hq : q <+: e.line.toList) (hne : q ≠ []) (hx : Foreign x)
    (h : Json.Tree.readValue fuel (q ++ x) = some (t, rest)) : q = e.line.toList ∧ rest = x :=
  hx.readValue_object_part e.fields_ne_nil e.flat_fields hne hq h

/-- The quote behind the brace ends a text that a part before has left open, and the name behind
it does not go on with an object. -/
theorem readGlyphs_part {e : OutboxEntry} {q x rest : List Char} {t : List Json.Glyph}
    (hq : q <+: e.line.toList) (hx : Foreign x)
    (h : Json.Tree.readGlyphs (q ++ x) = some (t, rest)) : ¬ GoesOn rest := by
  rcases e.line_begins with ⟨l, hl⟩
  rw [hl] at hq
  match q with
  | [] => exact hx.text h
  | [c] =>
    rcases List.cons_prefix_cons.mp hq with ⟨rfl, -⟩
    rw [Json.readGlyphs_append (List.forall_mem_singleton.mpr (by decide))] at h
    rcases Option.map_eq_some_iff.mp h with ⟨r, hread, hr⟩
    cases hr
    exact hx.text hread
  | c :: d :: q =>
    rcases List.cons_prefix_cons.mp hq with ⟨rfl, hquote⟩
    rcases List.cons_prefix_cons.mp hquote with ⟨rfl, hname⟩
    have hread : Json.Tree.readGlyphs ('\x7b' :: '"' :: q ++ x) = some ([.char '\x7b'], q ++ x) :=
      Json.readGlyphs_plain (List.forall_mem_singleton.mpr (by decide)) (q ++ x)
    rw [hread] at h
    cases h
    match q with
    | [] => exact hx.not_goesOn
    | c :: q =>
      rcases List.cons_prefix_cons.mp hname with ⟨rfl, -⟩
      rintro ⟨c, rest, hskip, hc⟩
      rw [List.cons_append, Json.skip_cons (by decide)] at hskip
      cases hskip
      revert hc
      decide

theorem foreign_part {e : OutboxEntry} {q x : List Char} (hq : q <+: e.line.toList)
    (hx : Foreign x) : Foreign (q ++ x) := by
  by_cases hne : q = []
  · rwa [hne]
  refine ⟨.inr ?_, readGlyphs_part hq hx, fun hread => ?_⟩
  · rcases e.line_begins with ⟨l, hl⟩
    rcases List.exists_cons_of_ne_nil hne with ⟨c, q, rfl⟩
    rw [hl] at hq
    rcases List.cons_prefix_cons.mp hq with ⟨rfl, -⟩
    exact ⟨_, rfl⟩
  · rw [(readValue_part hq hne hx hread).2]
    exact hx.not_goesOn

theorem foreign_line (e : OutboxEntry) : Foreign e.line.toList := by
  have hall := foreign_part (List.prefix_refl e.line.toList) Json.foreign_nil
  rwa [List.append_nil] at hall

/-- What begins with a part of a line tells an entry only where it is that line. -/
theorem eq_of_ofLine?_part {e e' : OutboxEntry} {q x : List Char} (hq : q <+: e.line.toList)
    (hne : q ≠ []) (hx : Foreign x) (h : ofLine? (String.ofList (q ++ x)) = some e') :
    x = [] ∧ e' = e := by
  rw [ofLine?] at h
  rcases Option.bind_eq_some_iff.mp h with ⟨v, hv, -⟩
  rcases Option.bind_eq_some_iff.mp hv with ⟨t, ht, -⟩
  rw [Json.Tree.ofText?, String.toList_ofList, Json.Tree.ofChars?] at ht
  rcases Option.bind_eq_some_iff.mp ht with ⟨r, hread, hend⟩
  have hall := readValue_part hq hne hx hread
  have hnil : x = [] := by
    simp only [hall.2, hx.skip_eq] at hend
    split at hend
    next hempty => exact List.isEmpty_iff.mp hempty
    next => cases hend
  refine ⟨hnil, ?_⟩
  rw [hall.1, hnil, List.append_nil, String.ofList_toList] at h
  exact (Option.some.inj (e.ofLine?_line.symm.trans h)).symm

end CivicLedger.OutboxEntry
