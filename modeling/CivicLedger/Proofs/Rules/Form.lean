import CivicLedger.Bytes.Basic
import CivicLedger.Operation.Form

/-!
# What the form of an operation guarantees

The checks of form, read backwards: the length of each text and the range of each number of an
operation that passes them.
-/

namespace CivicLedger

namespace Form

variable {ε α β : Type}

/-- Checks one after another pass if each of them does. -/
theorem bind_eq_ok {p : Except ε α} {f : α → Except ε β} {b : β} :
    (p >>= f) = .ok b ↔ ∃ a, p = .ok a ∧ f a = .ok b := by
  cases p with
  | ok a => simp [bind, Except.bind]
  | error e => simp [bind, Except.bind]

theorem throw_bind (e : ε) (f : α → Except ε β) : (throw e >>= f) = throw e := rfl

/-- A check that throws on a condition passes only without it. -/
theorem throw_if_eq_ok {c : Prop} [Decidable c] {e : ε} {p : Except ε α} {a : α} :
    (if c then throw e else p) = .ok a ↔ ¬ c ∧ p = .ok a := by
  by_cases h : c
  · simp [h, throw, throwThe, MonadExceptOf.throw]
  · simp [h]

/-- What passes for a whole list passes for each of its elements. -/
theorem ok_of_forM {f : β → Except ε Unit} {l : List β} (h : l.forM f = .ok ()) {x : β}
    (hx : x ∈ l) : f x = .ok () := by
  induction l with
  | nil => cases hx
  | cons y l ih =>
    obtain ⟨_, hy, hl⟩ := bind_eq_ok.mp h
    rcases List.mem_cons.mp hx with rfl | hx
    · exact hy
    · exact ih hl hx

/-- Two to sixteen characters, each a letter without accent, a digit, an underscore or a hyphen. -/
structure NameForm (s : String) : Prop where
  length : 2 ≤ s.length ∧ s.length ≤ 16
  chars : ∀ c ∈ s.toList, ('a' ≤ c ∧ c ≤ 'z') ∨ ('A' ≤ c ∧ c ≤ 'Z') ∨ ('0' ≤ c ∧ c ≤ '9') ∨
    c = '_' ∨ c = '-'

structure TextForm (field : TextField) (s : String) : Prop where
  nonempty : s ≠ ""
  short : s.utf8ByteSize ≤ field.limit

structure BillForm (d : BillDraft) : Prop where
  title : TextForm .title d.title
  detail : d.detail.utf8ByteSize ≤ TextField.detail.limit
  url : d.url.utf8ByteSize ≤ TextField.url.limit
  days : d.days ≠ 0 ∧ d.days ≤ maxBillDays
  count : d.options ≠ [] ∧ d.options.length ≤ maxBillOptions
  options : ∀ o ∈ d.options, TextForm .option o

structure TokenForm (d : TokenDraft) : Prop where
  symbol : isSymbol d.symbol = true
  name : TextForm .tokenName d.name
  digits : d.digits ≤ Amount.maxDigits
  total : d.total ≠ 0

theorem checkName_eq_ok {s : String} : checkName s = .ok () ↔ isName s = true := by
  unfold checkName
  split <;> simp_all

theorem checkSymbol_eq_ok {s : String} : checkSymbol s = .ok () ↔ isSymbol s = true := by
  unfold checkSymbol
  split <;> simp_all

theorem checkLength_eq_ok {field : TextField} {s : String} :
    checkLength field s = .ok () ↔ s.utf8ByteSize ≤ field.limit := by
  unfold checkLength
  split <;> simp_all

theorem checkText_eq_ok {field : TextField} {s : String} :
    checkText field s = .ok () ↔ TextForm field s := by
  unfold checkText
  by_cases hempty : s = ""
  · subst hempty
    constructor
    · intro h
      cases h
    · intro h
      exact absurd rfl h.nonempty
  · have hnot : s.isEmpty = false := by
      rw [Bool.eq_false_iff]
      intro h
      exact hempty (String.isEmpty_iff.mp h)
    rw [hnot, if_neg Bool.false_ne_true, checkLength_eq_ok]
    exact ⟨fun h => ⟨hempty, h⟩, fun h => h.short⟩

theorem billForm_of_checkBill {d : BillDraft} (h : checkBill d = .ok ()) : BillForm d := by
  unfold checkBill at h
  obtain ⟨_, htitle, h⟩ := bind_eq_ok.mp h
  obtain ⟨_, hdetail, h⟩ := bind_eq_ok.mp h
  obtain ⟨_, hurl, h⟩ := bind_eq_ok.mp h
  simp only [throw_bind, throw_if_eq_ok, not_or, UInt16.not_lt, Nat.not_lt] at h
  obtain ⟨hdays, hcount, hoptions⟩ := h
  exact {
    title := checkText_eq_ok.mp htitle
    detail := checkLength_eq_ok.mp hdetail
    url := checkLength_eq_ok.mp hurl
    days := hdays
    count := hcount
    options := fun o ho => checkText_eq_ok.mp (ok_of_forM hoptions ho) }

theorem tokenForm_of_checkToken {d : TokenDraft} (h : checkToken d = .ok ()) : TokenForm d := by
  unfold checkToken at h
  obtain ⟨_, hsymbol, h⟩ := bind_eq_ok.mp h
  obtain ⟨_, hname, h⟩ := bind_eq_ok.mp h
  simp only [throw_bind, throw_if_eq_ok, UInt8.not_lt] at h
  obtain ⟨hdigits, htotal, _⟩ := h
  exact ⟨checkSymbol_eq_ok.mp hsymbol, checkText_eq_ok.mp hname, hdigits, htotal⟩

theorem amount_of_checkPayment {amount : UInt64} {comment : String}
    (h : checkPayment amount comment = .ok ()) : amount ≠ 0 := by
  unfold checkPayment at h
  simp only [throw_bind, throw_if_eq_ok] at h
  exact h.1

theorem size_utf8Encode {l : List Char} (h : ∀ c ∈ l, c.utf8Size = 1) :
    l.utf8Encode.size = l.length := by
  induction l with
  | nil => rfl
  | cons c l ih =>
    have hc := h c List.mem_cons_self
    have hl := ih fun x hx => h x (List.mem_cons_of_mem c hx)
    rw [List.utf8Encode_cons, ByteArray.size_append, hl, List.utf8Encode_singleton,
      List.size_toByteArray, String.length_utf8EncodeChar, hc, List.length_cons, Nat.add_comm]

theorem nameForm_of_isName {s : String} (h : isName s = true) : NameForm s := by
  unfold isName isLetterOrDigit Text.isDigit at h
  obtain ⟨hsize, hall⟩ := Bool.and_eq_true_iff.mp h
  have hchars : ∀ c ∈ s.toList, ('a' ≤ c ∧ c ≤ 'z') ∨ ('A' ≤ c ∧ c ≤ 'Z') ∨
      ('0' ≤ c ∧ c ≤ '9') ∨ c = '_' ∨ c = '-' := by
    intro c hc
    have hclass := List.all_eq_true.mp hall c hc
    simpa [or_assoc] using hclass
  have hone : ∀ c ∈ s.toList, c.utf8Size = 1 := by
    intro c hc
    have hupper {d : Char} (hle : c ≤ d) (hd : d.val ≤ 127) : c.utf8Size = 1 :=
      Char.utf8Size_eq_one_iff.mpr (UInt32.le_trans hle hd)
    rcases hchars c hc with h | h | h | rfl | rfl
    · exact hupper h.2 (by decide)
    · exact hupper h.2 (by decide)
    · exact hupper h.2 (by decide)
    · rfl
    · rfl
  have hlength : s.utf8ByteSize = s.length := by
    have hbytes := size_utf8Encode hone
    rwa [String.utf8Encode_toList] at hbytes
  rw [hlength] at hsize
  exact ⟨of_decide_eq_true hsize, hchars⟩

theorem length_le_of_isName {s : String} (h : isName s = true) :
    s ≠ "" ∧ s.utf8ByteSize ≤ 16 := by
  unfold isName at h
  obtain ⟨hsize, _⟩ := Bool.and_eq_true_iff.mp h
  obtain ⟨hmin, hmax⟩ := of_decide_eq_true hsize
  refine ⟨?_, hmax⟩
  rintro rfl
  exact absurd hmin (by decide)

theorem length_le_of_isSymbol {s : String} (h : isSymbol s = true) : s.utf8ByteSize ≤ 16 := by
  unfold isSymbol at h
  obtain ⟨hsize, _⟩ := Bool.and_eq_true_iff.mp h
  exact (of_decide_eq_true hsize).2

end Form

end CivicLedger
