import CivicLedger.Proofs.Database.Mirror

/-!
# Ranges of keys

A table is listed by the bytes that its keys begin with, or up to a key. Where the keys are
identities and numbers put one after another, the bytes are in the order of these parts, the parts
are read back from their places, and what is listed is the range of the typed keys asked for, in
their order.
-/

namespace CivicLedger.Database

open KeyOrder

/-- What is listed of a table by some bytes: the entries whose keys begin with them and the keys
that do not come after them, each once and in the order of the keys. -/
structure ListsBy (db : Database) (t : TableName) (b : Bytes) : Prop where
  mem_scan : ∀ e, e ∈ db.scan t b ↔ e ∈ (db.table t).entries ∧ b <+: e.1
  scan_ascending : (db.scan t b).Pairwise fun d e => before d.1 e.1 = true
  mem_keysThrough : ∀ k, k ∈ db.keysThrough t b ↔ k ∈ (db.table t).keys ∧ before b k = false
  keysThrough_ascending : (db.keysThrough t b).Pairwise fun j k => before j k = true

theorem listsBy (db : Database) (t : TableName) (b : Bytes) : db.ListsBy t b where
  mem_scan e := by
    rw [scan_eq_filter, List.mem_filter, List.isPrefixOf_iff_prefix]
  scan_ascending := (db.table t).ascending.filter _
  mem_keysThrough k := by
    rw [keysThrough, List.mem_filter, Bool.not_eq_true']
    rfl
  keysThrough_ascending := (db.table t).keys_ascending.filter _

/-- How keys of a type lie in bytes: all of them have one length, and a key is read from any place
in longer bytes. -/
structure KeyLayout (κ : Type) where
  length : Nat
  write : κ → Bytes
  readAt : Bytes → Nat → Except StoreFault κ

namespace KeyLayout

variable {κ μ α : Type}

def key : KeyLayout KeyId := ⟨20, Key.ofKey, Key.keyAt⟩

def bill : KeyLayout BillId := ⟨20, Key.ofBill, Key.billAt⟩

def word : KeyLayout UInt64 := ⟨8, Bytes.ofUInt64BE, Key.wordAt⟩

def token : KeyLayout TokenId := ⟨8, Key.ofToken, fun b n => do return ⟨← Key.wordAt b n⟩⟩

def pair (A : KeyLayout κ) (B : KeyLayout μ) : KeyLayout (κ × μ) where
  length := A.length + B.length
  write k := A.write k.1 ++ B.write k.2
  readAt b n := do return (← A.readAt b n, ← B.readAt b (n + A.length))

def balance : KeyLayout (TokenId × KeyId) where
  length := 28
  write k := Key.ofBalance k.1 k.2
  readAt b n := do return (⟨← Key.wordAt b n⟩, ← Key.keyAt b (n + 8))

def lock : KeyLayout ((TokenId × KeyId) × Height) where
  length := 36
  write k := Key.ofLock k.1.1 k.1.2 k.2
  readAt b n := do
    return ((⟨← Key.wordAt b n⟩, ← Key.keyAt b (n + 8)), ← Key.wordAt b (n + 28))

def due : KeyLayout (Timestamp × BillId) where
  length := 28
  write k := Key.ofDue k.1 k.2
  readAt b n := do return (← Key.wordAt b n, ← Key.billAt b (n + 8))

theorem balance_eq : balance = token.pair key := by
  simp [balance, pair, token, key, Key.ofBalance]

theorem lock_eq : lock = balance.pair word := by
  simp [lock, pair, balance, word, Key.ofLock]

theorem due_eq : due = word.pair bill := rfl

structure Lawful [KeyOrder κ] (L : KeyLayout κ) : Prop where
  code : KeyCode L.write
  length_write : ∀ k, (L.write k).length = L.length
  readAt_write : ∀ front k back,
    L.readAt (front ++ (L.write k ++ back)) front.length = .ok k

theorem lawful_key : key.Lawful where
  code := code_key
  length_write := length_ofKey
  readAt_write _ k back := keyAt_of_part (take_part rfl (length_ofKey k) back)

theorem lawful_bill : bill.Lawful where
  code := code_bill
  length_write := length_ofBill
  readAt_write _ b back := billAt_of_part (take_part rfl (length_ofBill b) back)

theorem lawful_word : word.Lawful where
  code := code_word
  length_write := Bytes.length_ofUInt64BE
  readAt_write _ x back := wordAt_of_part (take_part rfl (Bytes.length_ofUInt64BE x) back)

theorem lawful_token : token.Lawful where
  code := code_token
  length_write := length_ofToken
  readAt_write front t back := by
    have hnumber : Key.wordAt (front ++ (Key.ofToken t ++ back)) front.length = .ok t.number :=
      lawful_word.readAt_write front t.number back
    simp only [token, hnumber, bind, Except.bind]
    rfl

section Laws

variable [KeyOrder κ] [KeyOrder μ] {A : KeyLayout κ} {B : KeyLayout μ}

theorem Lawful.pair (hA : A.Lawful) (hB : B.Lawful) : (A.pair B).Lawful where
  code := hA.code.pair hB.code hA.length_write
  length_write k := by
    rw [KeyLayout.pair, List.length_append, hA.length_write, hB.length_write]
  readAt_write front k back := by
    -- The second key is read as one behind the front and the first key.
    have hfirst := hA.readAt_write front k.1 (B.write k.2 ++ back)
    have hsecond := hB.readAt_write (front ++ A.write k.1) k.2 back
    rw [List.length_append, hA.length_write, List.append_assoc] at hsecond
    simp only [KeyLayout.pair, List.append_assoc, hfirst, hsecond, bind, Except.bind]
    rfl

theorem Lawful.readAt_zero (h : A.Lawful) (k : κ) : A.readAt (A.write k) 0 = .ok k := by
  have hread := h.readAt_write [] k []
  rwa [List.append_nil] at hread

end Laws

theorem lawful_balance : balance.Lawful := balance_eq ▸ lawful_token.pair lawful_key
theorem lawful_lock : lock.Lawful := lock_eq ▸ lawful_balance.pair lawful_word
theorem lawful_due : due.Lawful := due_eq ▸ lawful_word.pair lawful_bill

def Fills (L : KeyLayout κ) (l : List (κ × Bytes)) (content : Table) : Prop :=
  content.entries = l.map fun e => (L.write e.1, e.2)

def readEntry (L : KeyLayout κ) (e : Bytes × Bytes) : Except StoreFault (κ × Bytes) := do
  return (← L.readAt e.1 0, e.2)

def Scans (L : KeyLayout κ) (start : Bytes) (asked : κ → Bool) : Prop :=
  ∀ (db : Database) (t : TableName) (l : List (κ × Bytes)), L.Fills l (db.table t) →
    (db.scan t start).mapM L.readEntry = .ok (l.filter fun e => asked e.1)

def ListsThrough (L : KeyLayout κ) (last : Bytes) (asked : κ → Bool) : Prop :=
  ∀ (db : Database) (t : TableName) (l : List (κ × Bytes)), L.Fills l (db.table t) →
    (db.keysThrough t last).mapM (L.readAt · 0) = .ok ((l.map Prod.fst).filter asked)

/-- The bytes of keys stand for the keys: in their order and when they are read, and in every table
that has them. -/
structure Faithful [KeyOrder κ] (L : KeyLayout κ) : Prop where
  ordered : ∀ a b, before (L.write a) (L.write b) = before a b
  read_write : ∀ k, L.readAt (L.write k) 0 = .ok k
  /-- A table is in the order of the typed keys. -/
  ascending : ∀ (l : List (κ × Bytes)) (content : Table), L.Fills l content →
    l.Pairwise fun d e => before d.1 e.1 = true
  whole : L.Scans [] fun _ => true
  through : ∀ last, L.ListsThrough (L.write last) fun k => !before last k

section Tables

variable [KeyOrder κ] [KeyOrder α] {L : KeyLayout κ} {A : KeyLayout α}

theorem Lawful.scans (h : L.Lawful) {start : Bytes} {asked : κ → Bool}
    (hstart : ∀ k, start.isPrefixOf (L.write k) = asked k) : L.Scans start asked := by
  intro db t l hl
  rw [← List.filterMap_eq_filter, scan_eq_filter]
  refine mapM_filter hl ?_ ?_
  · intro e _ hp
    rw [hstart] at hp
    refine ⟨e, if_pos hp, ?_⟩
    simp only [readEntry, h.readAt_zero, bind, Except.bind]
    rfl
  · intro e _ hp
    rw [hstart] at hp
    exact if_neg (by simp [hp])

/-- Keys with a part in front are scanned by that part. -/
theorem Lawful.scans_part [DecidableEq α] (h : L.Lawful) (hA : A.Lawful) {part : κ → α}
    (hpart : ∀ k, A.write (part k) <+: L.write k) (a : α) :
    L.Scans (A.write a) (part · = a) := by
  refine h.scans fun k => ?_
  rcases hpart k with ⟨rest, hrest⟩
  rw [← hrest]
  exact hA.code.isPrefixOf_append hA.length_write a (part k) rest

theorem Lawful.listsThrough (h : L.Lawful) {last : Bytes} {asked : κ → Bool}
    (hlast : ∀ k, (!before last (L.write k)) = asked k) : L.ListsThrough last asked := by
  intro db t l hl
  have hkeys : (db.table t).keys = (l.map Prod.fst).map L.write := by
    rw [SortedMap.keys, hl, List.map_map, List.map_map]
    rfl
  rw [← List.filterMap_eq_filter]
  refine mapM_filter hkeys ?_ ?_
  · intro k _ hp
    exact ⟨k, if_pos ((hlast k).symm.trans hp), h.readAt_zero k⟩
  · intro k _ hp
    exact if_neg (by simp [(hlast k).symm.trans hp])

theorem Lawful.faithful (h : L.Lawful) : L.Faithful where
  ordered := h.code.ordered
  read_write := h.readAt_zero
  ascending l content hl := by
    have hascending := content.ascending
    rw [hl, List.pairwise_map] at hascending
    refine hascending.imp fun hbefore => ?_
    rwa [← h.code.ordered]
  whole := h.scans fun _ => rfl
  through last := h.listsThrough fun k => congrArg not (h.code.ordered last k)

end Tables

end KeyLayout

open KeyLayout

/-- Every table lists the entries that begin with given bytes and the keys up to given bytes,
exactly and in order. The bytes of keys that begin with a part of fixed length are in the order of
the parts. Where all parts have a fixed length, they are read back from their places, and what is
listed is the range of the typed keys. -/
theorem scans_list_typed_ranges :
    (∀ (db : Database) (t : TableName) (b : Bytes), db.ListsBy t b) ∧
    (∀ {n : Nat} (a b : FixedBytes n × Bytes),
      before (a.1.val ++ a.2) (b.1.val ++ b.2) = before a b) ∧
    (∀ a b : KeyId × String,
      before (Key.ofKey a.1 ++ utf8 a.2) (Key.ofKey b.1 ++ utf8 b.2) = before a b ∧
        Key.keyAt (Key.ofKey a.1 ++ utf8 a.2) 0 = .ok a.1) ∧
    ((key.pair key).Faithful ∧ ∀ k, (key.pair key).Scans (Key.ofKey k) (·.1 = k)) ∧
    ((key.pair bill).Faithful ∧ ∀ k, (key.pair bill).Scans (Key.ofKey k) (·.1 = k)) ∧
    ((bill.pair key).Faithful ∧ ∀ b, (bill.pair key).Scans (Key.ofBill b) (·.1 = b)) ∧
    ((key.pair token).Faithful ∧ ∀ k, (key.pair token).Scans (Key.ofKey k) (·.1 = k)) ∧
    (balance.Faithful ∧ ∀ t, balance.Scans (Key.ofToken t) (·.1 = t)) ∧
    (lock.Faithful ∧ (∀ t, lock.Scans (Key.ofToken t) (·.1.1 = t)) ∧
      ∀ t holder, lock.Scans (Key.ofBalance t holder) (·.1 = (t, holder))) ∧
    (due.Faithful ∧ ∀ time, due.ListsThrough (Key.ofDue time lastBill) (·.1 ≤ time)) := by
  have hkeys := lawful_key.pair lawful_key
  have hkeyBill := lawful_key.pair lawful_bill
  have hbillKey := lawful_bill.pair lawful_key
  have hkeyToken := lawful_key.pair lawful_token
  refine ⟨listsBy, ?_, ?_, ⟨hkeys.faithful, ?_⟩, ⟨hkeyBill.faithful, ?_⟩,
    ⟨hbillKey.faithful, ?_⟩, ⟨hkeyToken.faithful, ?_⟩, ⟨lawful_balance.faithful, ?_⟩,
    ⟨lawful_lock.faithful, ?_, ?_⟩, ⟨lawful_due.faithful, ?_⟩⟩
  · intro n a b
    exact Bytes.before_append (a.1.property.trans b.1.property.symm) a.2 b.2
  · intro a b
    exact ⟨code_keyText.ordered a b, lawful_key.readAt_write [] a.1 (utf8 a.2)⟩
  · exact hkeys.scans_part lawful_key fun _ => List.prefix_append _ _
  · exact hkeyBill.scans_part lawful_key fun _ => List.prefix_append _ _
  · exact hbillKey.scans_part lawful_bill fun _ => List.prefix_append _ _
  · exact hkeyToken.scans_part lawful_key fun _ => List.prefix_append _ _
  · exact lawful_balance.scans_part lawful_token fun _ => List.prefix_append _ _
  · exact lawful_lock.scans_part lawful_token fun _ =>
      (List.prefix_append _ _).trans (List.prefix_append _ _)
  · intro t holder
    exact lawful_lock.scans_part lawful_balance (fun _ => List.prefix_append _ _) (t, holder)
  · intro time
    exact lawful_due.listsThrough fun k => not_before_ofDue_lastBill time k.1 k.2

/-- Locks of the largest token number, all of whose bytes are 255, beside locks of 255 and 256. -/
theorem scans_list_typed_ranges_of_last_token :
    let full : TokenId := ⟨18446744073709551615⟩
    let holder : KeyId := ⟨.fill 20 255⟩
    let l : List (((TokenId × KeyId) × Height) × Bytes) :=
      [(((⟨255⟩, holder), 256), [1]), (((⟨256⟩, ⟨.fill 20 0⟩), 9), [2]),
        (((full, holder), 9), [3]), (((full, holder), 256), [4])]
    let db := Database.empty.setTable .tokenLocks
      (SortedMap.ofList (l.reverse.map fun e => (lock.write e.1, e.2)))
    lock.Fills l (db.table .tokenLocks) ∧ Key.after? (Key.ofToken full) = none ∧
      (db.scan .tokenLocks (Key.ofToken full)).mapM lock.readEntry = .ok (l.drop 2) := by
  intro full holder l db
  obtain ⟨-, -, -, -, -, -, -, -, ⟨-, hscans, -⟩, -⟩ := scans_list_typed_ranges
  have hfills : lock.Fills l (db.table .tokenLocks) := by
    unfold Fills
    decide +kernel
  exact ⟨hfills, by decide +kernel, hscans full db .tokenLocks l hfills⟩

end CivicLedger.Database
