import CivicLedger.Database.Table
import CivicLedger.Proofs.Bytes.Order
import CivicLedger.Proofs.Ordered.Entries

/-!
# Tables that hold a map

A table holds a map if its entries are those of the map, keys and values written as bytes. Keys are
written in their order, so look-ups, insertions, removals and scans of the table are those of the
map.
-/

namespace CivicLedger.Database

open SortedMap KeyOrder

variable {κ μ α γ : Type} [KeyOrder κ] [KeyOrder μ]

/-- Keys written as bytes in the order of the keys. -/
structure KeyCode (key : κ → Bytes) : Prop where
  ordered : ∀ a b, Bytes.before (key a) (key b) = before a b

namespace KeyCode

variable {key : κ → Bytes} {key' : μ → Bytes}

theorem injective (h : KeyCode key) {a b : κ} (e : key a = key b) : a = b := by
  refine before_connected ?_ ?_
  · rw [← h.ordered, e, Bytes.before_irrefl]
  · rw [← h.ordered, e, Bytes.before_irrefl]

/-- First parts of one length, written one after the other with the second parts. -/
theorem pair (h : KeyCode key) (h' : KeyCode key') {n : Nat} (hn : ∀ a, (key a).length = n) :
    KeyCode fun k : κ × μ => key k.1 ++ key' k.2 where
  ordered a b := by
    rw [Bytes.before_append ((hn a.1).trans (hn b.1).symm), h.ordered, h.ordered, h'.ordered]
    rfl

end KeyCode

@[simp] theorem length_ofKey (k : KeyId) : (Key.ofKey k).length = 20 := k.bytes.property
@[simp] theorem length_ofBill (b : BillId) : (Key.ofBill b).length = 20 := b.bytes.property
@[simp] theorem length_ofToken (t : TokenId) : (Key.ofToken t).length = 8 :=
  Bytes.length_ofUInt64BE _
@[simp] theorem length_ofBalance (t : TokenId) (k : KeyId) : (Key.ofBalance t k).length = 28 := by
  simp [Key.ofBalance]
@[simp] theorem length_ofLock (t : TokenId) (k : KeyId) (e : Height) :
    (Key.ofLock t k e).length = 36 := by
  simp [Key.ofLock]
@[simp] theorem length_ofDue (time : Timestamp) (b : BillId) : (Key.ofDue time b).length = 28 := by
  simp [Key.ofDue]

theorem code_key : KeyCode Key.ofKey := ⟨fun _ _ => rfl⟩
theorem code_bill : KeyCode Key.ofBill := ⟨fun _ _ => rfl⟩
theorem code_text : KeyCode utf8 := ⟨fun _ _ => rfl⟩
theorem code_word : KeyCode Bytes.ofUInt64BE := ⟨Bytes.before_ofUInt64BE⟩
theorem code_token : KeyCode Key.ofToken := ⟨fun a b => Bytes.before_ofUInt64BE a.number b.number⟩

theorem code_keys : KeyCode fun k : KeyId × KeyId => Key.ofKey k.1 ++ Key.ofKey k.2 :=
  code_key.pair code_key length_ofKey
theorem code_keyBill : KeyCode fun k : KeyId × BillId => Key.ofKey k.1 ++ Key.ofBill k.2 :=
  code_key.pair code_bill length_ofKey
theorem code_billKey : KeyCode fun k : BillId × KeyId => Key.ofBill k.1 ++ Key.ofKey k.2 :=
  code_bill.pair code_key length_ofBill
theorem code_keyText : KeyCode fun k : KeyId × String => Key.ofKey k.1 ++ utf8 k.2 :=
  code_key.pair code_text length_ofKey
theorem code_keyToken : KeyCode fun k : KeyId × TokenId => Key.ofKey k.1 ++ Key.ofToken k.2 :=
  code_key.pair code_token length_ofKey
theorem code_due : KeyCode fun k : Timestamp × BillId => Key.ofDue k.1 k.2 :=
  code_word.pair code_bill Bytes.length_ofUInt64BE
theorem code_balance : KeyCode fun k : TokenId × KeyId => Key.ofBalance k.1 k.2 :=
  code_token.pair code_key length_ofToken
theorem code_lock :
    KeyCode fun k : (TokenId × KeyId) × Height => Key.ofLock k.1.1 k.1.2 k.2 :=
  code_balance.pair code_word fun k => length_ofBalance k.1 k.2

def coded (key : κ → Bytes) (val : α → Bytes) (m : SortedMap κ α) : List (Bytes × Bytes) :=
  m.entries.map fun e => (key e.1, val e.2)

section Coded

variable {key : κ → Bytes} {val : α → Bytes} {m : SortedMap κ α} {t : Table}

theorem lookup_coded (hk : KeyCode key) (k : κ) (l : List (κ × α)) :
    lookup (key k) (l.map fun e => (key e.1, val e.2)) = (lookup k l).map val := by
  induction l with
  | nil => rfl
  | cons e l ih =>
    have h₁ : before (key k) (key e.1) = before k e.1 := hk.ordered k e.1
    have h₂ : before (key e.1) (key k) = before e.1 k := hk.ordered e.1 k
    simp only [List.map_cons, lookup, h₁, h₂, ih]
    split
    · rfl
    · split <;> rfl

theorem place_coded (hk : KeyCode key) (val : α → Bytes) (k : κ) (a : α) (l : List (κ × α)) :
    place (key k) (val a) (l.map fun e => (key e.1, val e.2)) =
      (place k a l).map fun e => (key e.1, val e.2) := by
  induction l with
  | nil => rfl
  | cons e l ih =>
    have h₁ : before (key k) (key e.1) = before k e.1 := hk.ordered k e.1
    have h₂ : before (key e.1) (key k) = before e.1 k := hk.ordered e.1 k
    simp only [List.map_cons, place, h₁, h₂, ih]
    split
    · rfl
    · split <;> rfl

theorem drop_coded (hk : KeyCode key) (val : α → Bytes) (k : κ) (l : List (κ × α)) :
    drop (key k) (l.map fun e => (key e.1, val e.2)) =
      (drop k l).map fun e => (key e.1, val e.2) := by
  induction l with
  | nil => rfl
  | cons e l ih =>
    have h₁ : before (key k) (key e.1) = before k e.1 := hk.ordered k e.1
    have h₂ : before (key e.1) (key k) = before e.1 k := hk.ordered e.1 k
    simp only [List.map_cons, drop, h₁, h₂, ih]
    split
    · rfl
    · split <;> rfl

theorem get?_of_coded (hk : KeyCode key) (h : t.entries = coded key val m) (k : κ) :
    t.get? (key k) = (m.get? k).map val := by
  unfold SortedMap.get?
  rw [h]
  exact lookup_coded hk k m.entries

theorem contains_of_coded (hk : KeyCode key) (h : t.entries = coded key val m) (k : κ) :
    t.contains (key k) = m.contains k := by
  unfold SortedMap.contains
  rw [get?_of_coded hk h, Option.isSome_map]

theorem insert_coded (hk : KeyCode key) (h : t.entries = coded key val m) (k : κ) (a : α) :
    (t.insert (key k) (val a)).entries = coded key val (m.insert k a) := by
  have hplace := place_coded hk val k a m.entries
  unfold coded at h
  change place (key k) (val a) t.entries = _
  rw [h]
  exact hplace

theorem erase_coded (hk : KeyCode key) (h : t.entries = coded key val m) (k : κ) :
    (t.erase (key k)).entries = coded key val (m.erase k) := by
  have hdrop := drop_coded hk val k m.entries
  unfold coded at h
  change drop (key k) t.entries = _
  rw [h]
  exact hdrop

theorem values_of_coded (h : t.entries = coded key val m) : t.values = m.values.map val := by
  unfold SortedMap.values
  rw [h, coded, List.map_map, List.map_map]
  rfl

theorem last?_of_coded (h : t.entries = coded key val m) :
    t.last? = m.last?.map fun e => (key e.1, val e.2) := by
  unfold SortedMap.last?
  rw [h, coded, List.getLast?_map]

end Coded

/-- Decoding that succeeds on each of the entries that are asked for. -/
theorem mapM_filter {ε β δ : Type} {l : List β} {p : β → Bool} {f : β → Except ε γ}
    {g : δ → Option γ} {code : δ → β} {entries : List δ} (hl : l = entries.map code)
    (hin : ∀ e ∈ entries, p (code e) = true → ∃ c, g e = some c ∧ f (code e) = .ok c)
    (hout : ∀ e ∈ entries, p (code e) = false → g e = none) :
    (l.filter p).mapM f = .ok (entries.filterMap g) := by
  subst hl
  induction entries with
  | nil => rfl
  | cons e entries ih =>
    have hrest := ih (fun x hx => hin x (List.mem_cons_of_mem e hx))
      fun x hx => hout x (List.mem_cons_of_mem e hx)
    rw [List.map_cons]
    cases hp : p (code e) with
    | true =>
      obtain ⟨c, hg, hf⟩ := hin e List.mem_cons_self hp
      rw [List.filter_cons_of_pos hp, List.mapM_cons, hf, hrest, List.filterMap_cons_some hg]
      rfl
    | false =>
      have hg := hout e List.mem_cons_self hp
      rw [List.filter_cons_of_neg (by simp [hp]), hrest, List.filterMap_cons_none hg]

/-- A scan lists the entries whose keys begin with the bytes asked for. -/
theorem scan_eq_filter (db : Database) (t : TableName) (start : Bytes) :
    db.scan t start = (db.table t).entries.filter fun e => start.isPrefixOf e.1 := by
  unfold scan
  congr 1
  funext e
  exact Key.in_range_iff start e.1

variable {db : Database} {t : TableName} {key : κ → Bytes} {val : α → Bytes} {m : SortedMap κ α}

/-- What is decoded from a scan of a table that holds a map: of each entry of the map whose key is
asked for, what it is decoded to. -/
theorem mapM_scan {start : Bytes} {f : Bytes × Bytes → Except StoreFault γ}
    {g : κ × α → Option γ} (h : (db.table t).entries = coded key val m)
    (hin : ∀ e ∈ m.entries, start.isPrefixOf (key e.1) = true →
      ∃ c, g e = some c ∧ f (key e.1, val e.2) = .ok c)
    (hout : ∀ e ∈ m.entries, start.isPrefixOf (key e.1) = false → g e = none) :
    (db.scan t start).mapM f = .ok (m.entries.filterMap g) := by
  rw [scan_eq_filter]
  exact mapM_filter h hin hout

theorem isPrefixOf_append_iff {a b : Bytes} (c : Bytes) (h : a.length = b.length) :
    a.isPrefixOf (b ++ c) = decide (a = b) := by
  induction a generalizing b with
  | nil =>
    cases b with
    | nil => cases c <;> rfl
    | cons y b => cases h
  | cons x a ih =>
    cases b with
    | nil => cases h
    | cons y b =>
      rw [List.cons_append, List.isPrefixOf_cons_cons, ih (Nat.succ.inj h)]
      by_cases hxy : x = y <;> simp [hxy]

/-- Of keys with a part of one length in front, those begin with a part that have it. -/
theorem KeyCode.isPrefixOf_append [DecidableEq κ] (hk : KeyCode key) {n : Nat}
    (hn : ∀ a, (key a).length = n) (k k' : κ) (c : Bytes) :
    (key k).isPrefixOf (key k' ++ c) = decide (k' = k) := by
  rw [isPrefixOf_append_iff c ((hn k).trans (hn k').symm)]
  exact decide_eq_decide.mpr ⟨fun he => (hk.injective he).symm, fun he => by rw [he]⟩

/-- The entries of pairs that begin with the first part asked for. -/
theorem mapM_scan_within [DecidableEq κ] {key : κ → Bytes} {key' : μ → Bytes}
    {m : SortedMap (κ × μ) α} {n : Nat} {f : Bytes × Bytes → Except StoreFault γ}
    {g : μ → α → γ} (hk : KeyCode key) (hn : ∀ a, (key a).length = n)
    (h : (db.table t).entries = coded (fun k => key k.1 ++ key' k.2) val m) (k : κ)
    (hf : ∀ x a, m.get? (k, x) = some a → f (key k ++ key' x, val a) = .ok (g x a)) :
    (db.scan t (key k)).mapM f = .ok ((m.within k).map fun e => g e.1 e.2) := by
  have hstart : ∀ e : (κ × μ) × α,
      (key k).isPrefixOf (key e.1.1 ++ key' e.1.2) = decide (e.1.1 = k) :=
    fun e => hk.isPrefixOf_append hn k e.1.1 (key' e.1.2)
  rw [within_eq_filterMap, List.map_filterMap]
  refine mapM_scan h ?_ ?_
  · rintro ⟨⟨k', x⟩, a⟩ he hp
    rw [hstart] at hp
    obtain rfl : k' = k := of_decide_eq_true hp
    exact ⟨g x a, by simp, hf x a (get?_of_mem he)⟩
  · intro e he hp
    rw [hstart] at hp
    rw [if_neg (of_decide_eq_false hp)]
    rfl

/-- All entries of a table. -/
theorem mapM_scan_all {f : Bytes × Bytes → Except StoreFault γ} {g : κ × α → γ}
    (h : (db.table t).entries = coded key val m)
    (hf : ∀ e ∈ m.entries, f (key e.1, val e.2) = .ok (g e)) :
    (db.scan t []).mapM f = .ok (m.entries.map g) := by
  have hall : m.entries.map g = m.entries.filterMap fun e => some (g e) := by
    rw [← List.filterMap_eq_map]
    rfl
  rw [hall]
  refine mapM_scan h ?_ ?_
  · intro e he _
    exact ⟨g e, rfl, hf e he⟩
  · intro e _ hp
    cases hp

end CivicLedger.Database
