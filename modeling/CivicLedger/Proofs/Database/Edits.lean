import CivicLedger.Proofs.Database.Agreement
import CivicLedger.Proofs.State.Edits

/-!
# Edits of a database that holds a ledger

Each edit fails on the database exactly where it fails on the ledger and with the same fault, and
leaves a database that holds the ledger it leaves. Names must have keys that the tables take. Only
settling a bill may leave different states where it fails.
-/

namespace CivicLedger.Database

open SortedMap Program

section Writes

variable {t : TableName} {key value : Bytes} {db : Database} {α : Type}

def FitsKey (key : Bytes) : Prop := key ≠ [] ∧ key.length ≤ 511

theorem fitsKey_of_length {b : Bytes} {n : Nat} (h : b.length = n + 1) (hn : n < 511) :
    FitsKey b := ⟨ne_nil_of_length h, by omega⟩

theorem put_apply (h : FitsKey key) :
    put t key value db = .ok () (db.setTable t ((db.table t).insert key value)) := by
  have hcond : ¬ (key = [] ∨ 511 < key.length) := by
    rintro (hnil | hlong)
    · exact h.1 hnil
    · exact Nat.not_lt.mpr h.2 hlong
  unfold put
  rw [if_neg hcond]
  rfl

theorem put_bind (h : FitsKey key) (p : Unit → Edit Database α) :
    (put t key value >>= p) db = p () (db.setTable t ((db.table t).insert key value)) :=
  bind_ok (put_apply h) p

theorem remove_apply (h : key ≠ []) :
    remove t key db =
      .ok ((db.table t).contains key) (db.setTable t ((db.table t).erase key)) := by
  unfold remove
  rw [if_neg h]
  rfl

theorem discard_apply (h : key ≠ []) :
    discard t key db = .ok () (db.setTable t ((db.table t).erase key)) :=
  bind_ok (remove_apply h) _

theorem ensureAbsent_bind (h : key ≠ []) (entry : Entry) (p : Unit → Edit Database α) :
    (ensureAbsent t key entry >>= p) db =
      if (db.table t).contains key then .error (.duplicate entry) db else p () db := by
  have hread : Edit.read (·.get? t key) db = .ok ((db.table t).get? key) db :=
    edit_read_of_ok (get?_ok h)
  have hensure : ensureAbsent t key entry db =
      if (db.table t).contains key then .error (.duplicate entry) db else .ok () db := by
    refine (bind_ok hread _).trans ?_
    unfold SortedMap.contains
    cases ((db.table t).get? key).isSome <;> rfl
  rw [bind_apply, hensure]
  cases (db.table t).contains key <;> rfl

end Writes

/-- What must be legible. -/
def legiblePart (l : Ledger) := (l.delegates, l.committees, l.bills, l.settlements, l.tokens)

theorem Legible.congr {l l' : Ledger} (h : Legible l) (e : legiblePart l' = legiblePart l) :
    Legible l' := by
  obtain ⟨h₁, e⟩ := Prod.mk.inj e
  obtain ⟨h₂, e⟩ := Prod.mk.inj e
  obtain ⟨h₃, e⟩ := Prod.mk.inj e
  obtain ⟨h₄, h₅⟩ := Prod.mk.inj e
  constructor
  · rw [h₁]; exact h.delegates
  · rw [h₂]; exact h.committees
  · rw [h₃]; exact h.bills
  · rw [h₄]; exact h.settlements
  · rw [h₅]; exact h.tokens

namespace Mirrors

variable {l l' : Ledger} {db : Database}

/-- One table is written, and nothing else of the ledger changes. -/
theorem write (h : Mirrors l db) (t : TableName) {content : Table}
    (hcontent : content.entries = rows l' t) (hlegible : Legible l')
    (hnotes : (l'.cursor, l'.synced) = (l.cursor, l.synced)) (ht : t ≠ .notes)
    (hothers : ∀ u, u ≠ t → rows l' u = rows l u) : Mirrors l' (db.setTable t content) where
  tables u hu := by
    by_cases he : u = t
    · rw [he, table_setTable_self, hcontent]
    · rw [table_setTable_ne db content he, hothers u he]
      exact h.tables u hu
  notes key := by
    obtain ⟨hcursor, hsynced⟩ := Prod.mk.inj hnotes
    rw [table_setTable_ne db content ht.symm, h.notes]
    unfold noted
    rw [hcursor, hsynced]
  legible := hlegible

/-- The notes alone are written. -/
theorem withNotes (h : Mirrors l db) {content : Table} (hrecords : ∀ t, rows l' t = rows l t)
    (hlegible : Legible l') (hnotes : ∀ key, content.get? key = noted l' key) :
    Mirrors l' (db.setTable .notes content) where
  tables t ht := by
    rw [table_setTable_ne db content ht, hrecords]
    exact h.tables t ht
  notes key := by
    rw [table_setTable_self]
    exact hnotes key
  legible := hlegible

end Mirrors

theorem agree_insertDelegate {d : Delegate} (hkey : FitsKey (utf8 d.name)) (hd : d.Fits) :
    Agree Mirrors (Ledger.insertDelegate d) (insertDelegate d) := by
  intro l db h
  have haddress : FitsKey (Key.ofKey d.address) := fitsKey_of_length (length_ofKey _) (by decide)
  have hthere := contains_of_coded code_key (h.tables .delegates (by decide)) d.address
  have hnamed := contains_of_coded code_text (h.tables .delegateNames (by decide)) d.name
  have hlegible : Legible { l with delegates := l.delegates.insert d.address d } :=
    { h.legible with delegates := forall_insert h.legible.delegates hd }
  have h₁ : Mirrors { l with delegates := l.delegates.insert d.address d } _ :=
    h.write .delegates
      (insert_coded code_key (h.tables .delegates (by decide)) d.address d)
      hlegible rfl (by decide)
      fun u hu => by cases u <;> first | rfl | exact absurd rfl hu
  have h₂ : Mirrors { l with
      delegates := l.delegates.insert d.address d
      delegateNames := l.delegateNames.insert d.name d.address } _ :=
    h₁.write .delegateNames
      (insert_coded code_text (h₁.tables .delegateNames (by decide)) d.name d.address)
      (h₁.legible.congr rfl) rfl (by decide)
      fun u hu => by cases u <;> first | rfl | exact absurd rfl hu
  rw [Ledger.insertDelegate_apply]
  unfold insertDelegate
  rw [ensureAbsent_bind haddress.1, hthere, ensureAbsent_bind hkey.1, hnamed, put_bind haddress,
    put_apply hkey]
  exact .ite (.error h) (.ite (.error h) (.ok h₂))

theorem fitsKey_pair (a b : KeyId) : FitsKey (Key.ofKey a ++ Key.ofKey b) :=
  fitsKey_of_length (n := 39) (by simp) (by decide)

theorem fitsKey_keyBill (a : KeyId) (b : BillId) : FitsKey (Key.ofKey a ++ Key.ofBill b) :=
  fitsKey_of_length (n := 39) (by simp) (by decide)

theorem fitsKey_billKey (a : BillId) (b : KeyId) : FitsKey (Key.ofBill a ++ Key.ofKey b) :=
  fitsKey_of_length (n := 39) (by simp) (by decide)

theorem agree_addDelegateVote (voter delegate : KeyId) :
    Agree Mirrors (Ledger.addDelegateVote voter delegate) (addDelegateVote voter delegate) := by
  intro l db h
  have hthere := contains_of_coded code_keys (h.tables .delegateVotes (by decide)) (voter, delegate)
  have h₁ : Mirrors { l with delegateVotes := l.delegateVotes.add (voter, delegate) } _ :=
    h.write .delegateVotes
      (insert_coded code_keys (h.tables .delegateVotes (by decide)) (voter, delegate) ())
      (h.legible.congr rfl) rfl (by decide)
      fun u hu => by cases u <;> first | rfl | exact absurd rfl hu
  have h₂ : Mirrors { l with
      delegateVotes := l.delegateVotes.add (voter, delegate)
      delegateVoters := l.delegateVoters.add (delegate, voter) } _ :=
    h₁.write .delegateVoters
      (insert_coded code_keys (h₁.tables .delegateVoters (by decide)) (delegate, voter) ())
      (h₁.legible.congr rfl) rfl (by decide)
      fun u hu => by cases u <;> first | rfl | exact absurd rfl hu
  rw [Ledger.addDelegateVote_apply]
  unfold addDelegateVote mark
  rw [ensureAbsent_bind (fitsKey_pair voter delegate).1, hthere,
    put_bind (fitsKey_pair voter delegate), put_apply (fitsKey_pair delegate voter)]
  exact .ite (.error h) (.ok h₂)

theorem agree_removeDelegateVote (voter delegate : KeyId) :
    Agree Mirrors (Ledger.removeDelegateVote voter delegate)
      (removeDelegateVote voter delegate) := by
  intro l db h
  have hthere := contains_of_coded code_keys (h.tables .delegateVotes (by decide)) (voter, delegate)
  have h₁ : Mirrors { l with delegateVotes := l.delegateVotes.erase (voter, delegate) } _ :=
    h.write .delegateVotes
      (erase_coded code_keys (h.tables .delegateVotes (by decide)) (voter, delegate))
      (h.legible.congr rfl) rfl (by decide)
      fun u hu => by cases u <;> first | rfl | exact absurd rfl hu
  have h₂ : Mirrors { l with
      delegateVotes := l.delegateVotes.erase (voter, delegate)
      delegateVoters := l.delegateVoters.erase (delegate, voter) } _ :=
    h₁.write .delegateVoters
      (erase_coded code_keys (h₁.tables .delegateVoters (by decide)) (delegate, voter))
      (h₁.legible.congr rfl) rfl (by decide)
      fun u hu => by cases u <;> first | rfl | exact absurd rfl hu
  rw [Ledger.removeDelegateVote_apply]
  unfold removeDelegateVote
  rw [bind_ok (remove_apply (fitsKey_pair voter delegate).1), hthere]
  by_cases hc : l.delegateVotes.contains (voter, delegate) = true
  · rw [if_pos hc, if_pos hc, discard_apply (fitsKey_pair delegate voter).1]
    exact .ok h₂
  · rw [if_neg hc, if_neg hc]
    have habsent := contains_eq_false.mp (Bool.eq_false_iff.mpr hc)
    rw [erase_of_absent habsent] at h₁
    exact .error h₁

theorem agree_insertCommittee {c : Committee} (hkey : FitsKey (utf8 c.name)) (hc : c.Fits) :
    Agree Mirrors (Ledger.insertCommittee c) (insertCommittee c) := by
  intro l db h
  have haddress : FitsKey (Key.ofKey c.address) := fitsKey_of_length (length_ofKey _) (by decide)
  have hthere := contains_of_coded code_key (h.tables .committees (by decide)) c.address
  have hnamed := contains_of_coded code_text (h.tables .committeeNames (by decide)) c.name
  have hlegible : Legible { l with committees := l.committees.insert c.address c } :=
    { h.legible with committees := forall_insert h.legible.committees hc }
  have h₁ : Mirrors { l with committees := l.committees.insert c.address c } _ :=
    h.write .committees
      (insert_coded code_key (h.tables .committees (by decide)) c.address c)
      hlegible rfl (by decide)
      fun u hu => by cases u <;> first | rfl | exact absurd rfl hu
  have h₂ : Mirrors { l with
      committees := l.committees.insert c.address c
      committeeNames := l.committeeNames.insert c.name c.address } _ :=
    h₁.write .committeeNames
      (insert_coded code_text (h₁.tables .committeeNames (by decide)) c.name c.address)
      (h₁.legible.congr rfl) rfl (by decide)
      fun u hu => by cases u <;> first | rfl | exact absurd rfl hu
  rw [Ledger.insertCommittee_apply]
  unfold insertCommittee
  rw [ensureAbsent_bind haddress.1, hthere, ensureAbsent_bind hkey.1, hnamed, put_bind haddress,
    put_apply hkey]
  exact .ite (.error h) (.ite (.error h) (.ok h₂))

theorem fitsKey_ofKey (k : KeyId) : FitsKey (Key.ofKey k) :=
  fitsKey_of_length (length_ofKey k) (by decide)

theorem fitsKey_ofBill (b : BillId) : FitsKey (Key.ofBill b) :=
  fitsKey_of_length (length_ofBill b) (by decide)

theorem agree_putCommitteeVote (voter committee : KeyId) :
    Agree Mirrors (Ledger.putCommitteeVote voter committee) (putCommitteeVote voter committee) := by
  intro l db h
  have hthere := contains_of_coded code_key (h.tables .committeeVotes (by decide)) voter
  have h₁ : Mirrors { l with committeeVotes := l.committeeVotes.insert voter committee } _ :=
    h.write .committeeVotes
      (insert_coded code_key (h.tables .committeeVotes (by decide)) voter committee)
      (h.legible.congr rfl) rfl (by decide)
      fun u hu => by cases u <;> first | rfl | exact absurd rfl hu
  have h₂ : Mirrors { l with
      committeeVotes := l.committeeVotes.insert voter committee
      committeeVoters := l.committeeVoters.add (committee, voter) } _ :=
    h₁.write .committeeVoters
      (insert_coded code_keys (h₁.tables .committeeVoters (by decide)) (committee, voter) ())
      (h₁.legible.congr rfl) rfl (by decide)
      fun u hu => by cases u <;> first | rfl | exact absurd rfl hu
  rw [Ledger.putCommitteeVote_apply]
  unfold putCommitteeVote mark
  rw [ensureAbsent_bind (ofKey_ne_nil voter), hthere, put_bind (fitsKey_ofKey voter),
    put_apply (fitsKey_pair committee voter)]
  exact .ite (.error h) (.ok h₂)

theorem agree_removeCommitteeVote (voter committee : KeyId) :
    Agree Mirrors (Ledger.removeCommitteeVote voter committee)
      (removeCommitteeVote voter committee) := by
  intro l db h
  have hread : Edit.read (LedgerReads.committeeVoteOf? · voter) db =
      .ok (l.committeeVotes.get? voter) db :=
    edit_read_of_ok (h.alike.committeeVoteOf? voter).symm
  have h₁ : Mirrors { l with committeeVotes := l.committeeVotes.erase voter } _ :=
    h.write .committeeVotes
      (erase_coded code_key (h.tables .committeeVotes (by decide)) voter)
      (h.legible.congr rfl) rfl (by decide)
      fun u hu => by cases u <;> first | rfl | exact absurd rfl hu
  have h₂ : Mirrors { l with
      committeeVotes := l.committeeVotes.erase voter
      committeeVoters := l.committeeVoters.erase (committee, voter) } _ :=
    h₁.write .committeeVoters
      (erase_coded code_keys (h₁.tables .committeeVoters (by decide)) (committee, voter))
      (h₁.legible.congr rfl) rfl (by decide)
      fun u hu => by cases u <;> first | rfl | exact absurd rfl hu
  rw [Ledger.removeCommitteeVote_apply]
  unfold removeCommitteeVote
  rw [bind_ok hread]
  by_cases hc : l.committeeVotes.get? voter = some committee
  · rw [if_pos hc, if_pos hc, bind_ok (discard_apply (ofKey_ne_nil voter)),
      discard_apply (fitsKey_pair committee voter).1]
    exact .ok h₂
  · rw [if_neg hc, if_neg hc]
    exact .error h

theorem fitsKey_ofDue (time : Timestamp) (b : BillId) : FitsKey (Key.ofDue time b) :=
  fitsKey_of_length (length_ofDue time b) (by decide)

theorem agree_insertBill {b : Bill} (hb : b.Fits) :
    Agree Mirrors (Ledger.insertBill b) (insertBill b) := by
  intro l db h
  have hthere := contains_of_coded code_bill (h.tables .bills (by decide)) b.id
  have hlegible : Legible { l with bills := l.bills.insert b.id b } :=
    { h.legible with bills := forall_insert h.legible.bills hb }
  have h₁ : Mirrors { l with bills := l.bills.insert b.id b } _ :=
    h.write .bills
      (insert_coded code_bill (h.tables .bills (by decide)) b.id b)
      hlegible rfl (by decide)
      fun u hu => by cases u <;> first | rfl | exact absurd rfl hu
  have h₂ : Mirrors { l with
      bills := l.bills.insert b.id b
      committeeBills := l.committeeBills.add (b.committee, b.id) } _ :=
    h₁.write .committeeBills
      (insert_coded code_keyBill (h₁.tables .committeeBills (by decide)) (b.committee, b.id) ())
      (h₁.legible.congr rfl) rfl (by decide)
      fun u hu => by cases u <;> first | rfl | exact absurd rfl hu
  have h₃ : Mirrors { l with
      bills := l.bills.insert b.id b
      committeeBills := l.committeeBills.add (b.committee, b.id)
      dueBills := l.dueBills.add (b.closes, b.id) } _ :=
    h₂.write .dueBills
      (insert_coded code_due (h₂.tables .dueBills (by decide)) (b.closes, b.id) ())
      (h₂.legible.congr rfl) rfl (by decide)
      fun u hu => by cases u <;> first | rfl | exact absurd rfl hu
  rw [Ledger.insertBill_apply]
  unfold insertBill mark
  rw [ensureAbsent_bind (ofBill_ne_nil b.id), hthere, put_bind (fitsKey_ofBill b.id),
    put_bind (fitsKey_keyBill b.committee b.id), put_apply (fitsKey_ofDue b.closes b.id)]
  exact .ite (.error h) (.ok h₃)

theorem agree_putBallot (bill : BillId) (voter : KeyId) (choice : UInt8) :
    Agree Mirrors (Ledger.putBallot bill voter choice) (putBallot bill voter choice) := by
  intro l db h
  have hthere := contains_of_coded code_billKey (h.tables .ballots (by decide)) (bill, voter)
  have h₁ : Mirrors { l with ballots := l.ballots.insert (bill, voter) ⟨choice, none⟩ } _ :=
    h.write .ballots
      (insert_coded code_billKey (h.tables .ballots (by decide)) (bill, voter) ⟨choice, none⟩)
      (h.legible.congr rfl) rfl (by decide)
      fun u hu => by cases u <;> first | rfl | exact absurd rfl hu
  have h₂ : Mirrors { l with
      ballots := l.ballots.insert (bill, voter) ⟨choice, none⟩
      votedBills := l.votedBills.add (voter, bill) } _ :=
    h₁.write .votedBills
      (insert_coded code_keyBill (h₁.tables .votedBills (by decide)) (voter, bill) ())
      (h₁.legible.congr rfl) rfl (by decide)
      fun u hu => by cases u <;> first | rfl | exact absurd rfl hu
  rw [Ledger.putBallot_apply]
  unfold putBallot mark
  rw [ensureAbsent_bind (fitsKey_billKey bill voter).1, hthere,
    put_bind (fitsKey_billKey bill voter), put_apply (fitsKey_keyBill voter bill)]
  exact .ite (.error h) (.ok h₂)

theorem agree_weigh (bill : BillId) (voter : KeyId) (weight : UInt64) :
    Agree Mirrors (Ledger.weigh bill voter weight) (weigh bill voter weight) := by
  intro l db h
  have hread : Edit.read (LedgerReads.ballot? · bill voter) db =
      .ok (l.ballots.get? (bill, voter)) db :=
    edit_read_of_ok (h.alike.ballot? bill voter).symm
  rw [Ledger.weigh_apply]
  unfold weigh
  rw [bind_ok hread]
  cases hb : l.ballots.get? (bill, voter) with
  | none => exact .error h
  | some ballot =>
    have h₁ : Mirrors { l with
        ballots := l.ballots.insert (bill, voter) { ballot with weight := some weight } } _ :=
      h.write .ballots
        (insert_coded code_billKey (h.tables .ballots (by decide))
          (bill, voter) { ballot with weight := some weight })
        (h.legible.congr rfl) rfl (by decide)
        fun u hu => by cases u <;> first | rfl | exact absurd rfl hu
    simp only []
    rw [put_apply (fitsKey_billKey bill voter)]
    exact .ok h₁

def withSettled (settlements : SortedMap BillId Settlement) (due : SortedSet (Timestamp × BillId))
    (l : Ledger) : Ledger := { l with settlements := settlements, dueBills := due }

/-- Weighing votes neither reads nor writes settlements and the index of due bills. -/
theorem forM_weigh_withSettled {bill : BillId} {settlements : SortedMap BillId Settlement}
    {due : SortedSet (Timestamp × BillId)} (weights : List (KeyId × UInt64)) (l : Ledger) :
    (weights.forM fun e => Ledger.weigh bill e.1 e.2) (withSettled settlements due l) =
      match (weights.forM fun e => Ledger.weigh bill e.1 e.2) l with
      | .ok u l' => .ok u (withSettled settlements due l')
      | .error e l' => .error e (withSettled settlements due l') := by
  induction weights generalizing l with
  | nil => rfl
  | cons e rest ih =>
    rw [List.forM_eq_forM, List.forM_cons, bind_apply, bind_apply, Ledger.weigh_apply,
      Ledger.weigh_apply]
    have hsame : (withSettled settlements due l).ballots = l.ballots := rfl
    rw [hsame]
    cases hb : l.ballots.get? (bill, e.1) with
    | none => rfl
    | some ballot =>
      exact ih { l with
        ballots := l.ballots.insert (bill, e.1) { ballot with weight := some e.2 } }

/-- The votes of a bill are weighed alike where the database has its settlement already and the
ledger writes it afterwards. -/
theorem sameResult_weigh {bill : BillId} {closes : Timestamp} {s : Settlement} {l : Ledger}
    {db : Database} (h : Mirrors (withSettled (l.settlements.insert bill s)
      (l.dueBills.erase (closes, bill)) l) db) (weights : List (KeyId × UInt64)) :
    SameResult Unrelated
      (((weights.forM fun e => Ledger.weigh bill e.1 e.2) >>= fun _ => modify fun l => { l with
        settlements := l.settlements.insert bill s
        dueBills := l.dueBills.erase (closes, bill) }) l)
      ((weights.forM fun e => weigh bill e.1 e.2) db) := by
  have hall : ∀ e ∈ weights, Agree Mirrors (Ledger.weigh bill e.1 e.2) (weigh bill e.1 e.2) :=
    fun e _ => agree_weigh bill e.1 e.2
  have hweigh := Agree.forM hall _ _ h
  have hkept := Ledger.keeps_weigh (fun l => (l.settlements, l.dueBills)) bill (fun _ _ => rfl)
    weights l
  -- The ledger weighs the votes first: what it then writes commutes with weighing.
  rw [forM_weigh_withSettled] at hweigh
  rw [bind_apply]
  cases hl : (weights.forM fun e => Ledger.weigh bill e.1 e.2) l with
  | ok u l' =>
    rw [hl] at hweigh hkept
    obtain ⟨hsettlements, hdue⟩ := Prod.mk.inj hkept
    change SameResult _ (.ok u (withSettled _ _ l')) _ at hweigh
    have hfinal : { l' with
        settlements := l'.settlements.insert bill s
        dueBills := l'.dueBills.erase (closes, bill) } =
        withSettled (l.settlements.insert bill s) (l.dueBills.erase (closes, bill)) l' := by
      change l'.settlements = l.settlements at hsettlements
      change l'.dueBills = l.dueBills at hdue
      rw [hsettlements, hdue]
      rfl
    rw [← hfinal] at hweigh
    exact hweigh.weaken
  | error e l' =>
    rw [hl] at hweigh
    exact hweigh.of_error

/-- The database with a settlement written and its bill no longer due, before any vote is
weighed. -/
def marked (db : Database) (bill : BillId) (closes : Timestamp) (s : Settlement) : Database :=
  let settlements := (db.table .settlements).insert (Key.ofBill bill) s.toBytes
  let written := db.setTable .settlements settlements
  written.setTable .dueBills ((written.table .dueBills).erase (Key.ofDue closes bill))

theorem Mirrors.marked {l : Ledger} {db : Database} (h : Mirrors l db) (bill : BillId)
    (closes : Timestamp) {s : Settlement} (hs : s.Fits) :
    Mirrors (withSettled (l.settlements.insert bill s) (l.dueBills.erase (closes, bill)) l)
      (db.marked bill closes s) := by
  have hlegible : Legible { l with settlements := l.settlements.insert bill s } :=
    { h.legible with settlements := forall_insert h.legible.settlements hs }
  have h₁ : Mirrors { l with settlements := l.settlements.insert bill s } _ :=
    h.write .settlements
      (insert_coded code_bill (h.tables .settlements (by decide)) bill s)
      hlegible rfl (by decide)
      fun u hu => by cases u <;> first | rfl | exact absurd rfl hu
  exact h₁.write .dueBills
    (erase_coded code_due (h₁.tables .dueBills (by decide)) (closes, bill))
    (h₁.legible.congr rfl) rfl (by decide)
    fun u hu => by cases u <;> first | rfl | exact absurd rfl hu

/-- A settlement is written before the votes are weighed, where the bill is there and has none. -/
theorem settle_of_mirrors {l : Ledger} {db : Database} (h : Mirrors l db) (bill : BillId)
    (s : Settlement) (weights : List (KeyId × UInt64)) :
    settle bill s weights db =
      match l.bills.get? bill with
      | none => .error (.notFound (.bill bill)) db
      | some b =>
        if l.settlements.contains bill then .error (.duplicate (.settlement bill)) db
        else (weights.forM fun e => weigh bill e.1 e.2) (db.marked bill b.closes s) := by
  have hread : Edit.read (LedgerReads.bill? · bill) db = .ok (l.bills.get? bill) db :=
    edit_read_of_ok (h.alike.bill? bill).symm
  have hthere := contains_of_coded code_bill (h.tables .settlements (by decide)) bill
  unfold settle
  rw [bind_ok hread]
  cases l.bills.get? bill with
  | none => rfl
  | some b =>
    simp only []
    rw [ensureAbsent_bind (ofBill_ne_nil bill), hthere, put_bind (fitsKey_ofBill bill),
      bind_ok (discard_apply (fitsKey_ofDue b.closes bill).1)]
    rfl

/-- A bill is settled on both or fails with the same fault on both. What is left after a fault
differs: on the database the settlement is written before the votes are weighed. -/
theorem agree_settle (bill : BillId) {s : Settlement} (hs : s.Fits)
    (weights : List (KeyId × UInt64)) :
    Agree Unrelated (Ledger.settle bill s weights) (settle bill s weights) := by
  intro l db h
  rw [settle_of_mirrors h]
  unfold Ledger.settle
  rw [Ledger.get_bind]
  cases l.bills.get? bill with
  | none => exact .error trivial
  | some b =>
    simp only []
    rw [Ledger.ensureAbsent_bind]
    exact .ite (.error trivial) (sameResult_weigh (h.marked bill b.closes hs) weights)

theorem agree_insertName (address : KeyId) {name : String} (hkey : FitsKey (utf8 name)) :
    Agree Mirrors (Ledger.insertName address name) (insertName address name) := by
  intro l db h
  have hthere := contains_of_coded code_key (h.tables .names (by decide)) address
  have hnamed := contains_of_coded code_text (h.tables .namedKeys (by decide)) name
  have h₁ : Mirrors { l with names := l.names.insert address name } _ :=
    h.write .names
      (insert_coded code_key (h.tables .names (by decide)) address name)
      (h.legible.congr rfl) rfl (by decide)
      fun u hu => by cases u <;> first | rfl | exact absurd rfl hu
  have h₂ : Mirrors { l with
      names := l.names.insert address name
      namedKeys := l.namedKeys.insert name address } _ :=
    h₁.write .namedKeys
      (insert_coded code_text (h₁.tables .namedKeys (by decide)) name address)
      (h₁.legible.congr rfl) rfl (by decide)
      fun u hu => by cases u <;> first | rfl | exact absurd rfl hu
  rw [Ledger.insertName_apply]
  unfold insertName
  rw [ensureAbsent_bind (ofKey_ne_nil address), hthere, ensureAbsent_bind hkey.1, hnamed,
    put_bind (fitsKey_ofKey address), put_apply hkey]
  exact .ite (.error h) (.ite (.error h) (.ok h₂))

theorem agree_insertToken {t : Token} (hkey : FitsKey (Key.ofKey t.owner ++ utf8 t.symbol))
    (ht : t.Fits) : Agree Mirrors (Ledger.insertToken t) (insertToken t) := by
  intro l db h
  have hid : FitsKey (Key.ofToken t.id) := fitsKey_of_length (length_ofToken _) (by decide)
  have hthere := contains_of_coded code_token (h.tables .tokens (by decide)) t.id
  have hbound := contains_of_coded code_key (h.tables .tokenAddresses (by decide)) t.address
  have htaken := contains_of_coded code_keyText (h.tables .tokenSymbols (by decide))
    (t.owner, t.symbol)
  have hlegible : Legible { l with tokens := l.tokens.insert t.id t } :=
    { h.legible with tokens := forall_insert h.legible.tokens ⟨ht, rfl⟩ }
  have h₁ : Mirrors { l with tokens := l.tokens.insert t.id t } _ :=
    h.write .tokens
      (insert_coded code_token (h.tables .tokens (by decide)) t.id t)
      hlegible rfl (by decide)
      fun u hu => by cases u <;> first | rfl | exact absurd rfl hu
  have h₂ : Mirrors { l with
      tokens := l.tokens.insert t.id t
      tokenAddresses := l.tokenAddresses.insert t.address t.id } _ :=
    h₁.write .tokenAddresses
      (insert_coded code_key (h₁.tables .tokenAddresses (by decide)) t.address t.id)
      (h₁.legible.congr rfl) rfl (by decide)
      fun u hu => by cases u <;> first | rfl | exact absurd rfl hu
  have h₃ : Mirrors { l with
      tokens := l.tokens.insert t.id t
      tokenAddresses := l.tokenAddresses.insert t.address t.id
      tokenSymbols := l.tokenSymbols.insert (t.owner, t.symbol) t.id } _ :=
    h₂.write .tokenSymbols
      (insert_coded code_keyText (h₂.tables .tokenSymbols (by decide)) (t.owner, t.symbol) t.id)
      (h₂.legible.congr rfl) rfl (by decide)
      fun u hu => by cases u <;> first | rfl | exact absurd rfl hu
  rw [Ledger.insertToken_apply]
  unfold insertToken
  rw [ensureAbsent_bind hid.1, hthere, ensureAbsent_bind (ofKey_ne_nil t.address), hbound,
    ensureAbsent_bind hkey.1, htaken, put_bind hid, put_bind (fitsKey_ofKey t.address),
    put_apply hkey]
  exact .ite (.error h) (.ite (.error h) (.ite (.error h) (.ok h₃)))

theorem fitsKey_keyToken (k : KeyId) (t : TokenId) : FitsKey (Key.ofKey k ++ Key.ofToken t) :=
  fitsKey_of_length (n := 27) (by simp) (by decide)

theorem fitsKey_ofBalance (t : TokenId) (k : KeyId) : FitsKey (Key.ofBalance t k) :=
  fitsKey_of_length (length_ofBalance t k) (by decide)

theorem fitsKey_ofLock (t : TokenId) (k : KeyId) (e : Height) : FitsKey (Key.ofLock t k e) :=
  fitsKey_of_length (length_ofLock t k e) (by decide)

theorem agree_setTokenBalance (token : TokenId) (holder : KeyId) (amount : UInt64) :
    Agree Mirrors (Ledger.setTokenBalance token holder amount)
      (setTokenBalance token holder amount) := by
  intro l db h
  rw [Ledger.setTokenBalance_apply]
  unfold setTokenBalance Ledger.withBalance
  by_cases hzero : amount = 0
  · have h₁ : Mirrors { l with tokenBalances := l.tokenBalances.erase (token, holder) } _ :=
      h.write .tokenBalances
        (erase_coded code_balance (h.tables .tokenBalances (by decide)) (token, holder))
        (h.legible.congr rfl) rfl (by decide)
        fun u hu => by cases u <;> first | rfl | exact absurd rfl hu
    rw [if_pos hzero, if_pos hzero, discard_apply (fitsKey_ofBalance token holder).1]
    exact .ok h₁
  · have h₁ : Mirrors { l with tokenBalances := l.tokenBalances.insert (token, holder) amount } _ :=
      h.write .tokenBalances
        (insert_coded code_balance (h.tables .tokenBalances (by decide)) (token, holder) amount)
        (h.legible.congr rfl) rfl (by decide)
        fun u hu => by cases u <;> first | rfl | exact absurd rfl hu
    have h₂ : Mirrors { l with
        tokenBalances := l.tokenBalances.insert (token, holder) amount
        heldTokens := l.heldTokens.add (holder, token) } _ :=
      h₁.write .heldTokens
        (insert_coded code_keyToken (h₁.tables .heldTokens (by decide)) (holder, token) ())
        (h₁.legible.congr rfl) rfl (by decide)
        fun u hu => by cases u <;> first | rfl | exact absurd rfl hu
    unfold noteHolding mark
    rw [if_neg hzero, if_neg hzero, put_bind (fitsKey_ofBalance token holder),
      put_apply (fitsKey_keyToken holder token)]
    exact .ok h₂

theorem agree_addLock (k : TokenLock) : Agree Mirrors (Ledger.addLock k) (addLock k) := by
  intro l db h
  have hword := word?_of_coded (fun a => a) (k := ((k.token, k.holder), k.expiry)) code_lock
    (h.tables .tokenLocks (by decide)) (fitsKey_ofLock k.token k.holder k.expiry).1
  have hread : Edit.read (word? · .tokenLocks (Key.ofLock k.token k.holder k.expiry)) db =
      .ok (l.tokenLocks.get? ((k.token, k.holder), k.expiry)) db := by
    refine edit_read_of_ok ?_
    rw [hword, Option.map_id']
  rw [Ledger.addLock_apply]
  unfold addLock
  rw [bind_ok hread]
  cases Word.checkedAdd ((l.tokenLocks.get? ((k.token, k.holder), k.expiry)).getD 0) k.amount with
  | none => exact .error h
  | some amount =>
    have h₁ : Mirrors { l with
        tokenLocks := l.tokenLocks.insert ((k.token, k.holder), k.expiry) amount } _ :=
      h.write .tokenLocks
        (insert_coded code_lock (h.tables .tokenLocks (by decide))
          ((k.token, k.holder), k.expiry) amount)
        (h.legible.congr rfl) rfl (by decide)
        fun u hu => by cases u <;> first | rfl | exact absurd rfl hu
    have h₂ : Mirrors { l with
        tokenLocks := l.tokenLocks.insert ((k.token, k.holder), k.expiry) amount
        heldTokens := l.heldTokens.add (k.holder, k.token) } _ :=
      h₁.write .heldTokens
        (insert_coded code_keyToken (h₁.tables .heldTokens (by decide)) (k.holder, k.token) ())
        (h₁.legible.congr rfl) rfl (by decide)
        fun u hu => by cases u <;> first | rfl | exact absurd rfl hu
    simp only []
    unfold noteHolding mark
    rw [put_bind (fitsKey_ofLock k.token k.holder k.expiry),
      put_apply (fitsKey_keyToken k.holder k.token)]
    exact .ok h₂

theorem agree_removeLock (token : TokenId) (holder : KeyId) (expiry : Height) :
    Agree Mirrors (Ledger.removeLock token holder expiry) (removeLock token holder expiry) := by
  intro l db h
  have hthere := contains_of_coded code_lock (h.tables .tokenLocks (by decide))
    ((token, holder), expiry)
  have h₁ : Mirrors { l with tokenLocks := l.tokenLocks.erase ((token, holder), expiry) } _ :=
    h.write .tokenLocks
      (erase_coded code_lock (h.tables .tokenLocks (by decide)) ((token, holder), expiry))
      (h.legible.congr rfl) rfl (by decide)
      fun u hu => by cases u <;> first | rfl | exact absurd rfl hu
  rw [Ledger.removeLock_apply]
  unfold removeLock
  rw [bind_ok (remove_apply (fitsKey_ofLock token holder expiry).1), hthere]
  by_cases hc : l.tokenLocks.contains ((token, holder), expiry) = true
  · rw [if_pos hc, if_pos hc]
    exact .ok h₁
  · rw [if_neg hc, if_neg hc]
    have habsent := contains_eq_false.mp (Bool.eq_false_iff.mpr hc)
    rw [erase_of_absent habsent] at h₁
    exact .error h₁

theorem agree_setCoinBalance (address : KeyId) (amount : UInt64) :
    Agree Mirrors (Ledger.setCoinBalance address amount) (setCoinBalance address amount) := by
  intro l db h
  rw [Ledger.setCoinBalance_apply]
  unfold setCoinBalance
  by_cases hzero : amount = 0
  · have h₁ : Mirrors { l with coinBalances := l.coinBalances.erase address } _ :=
      h.write .coinBalances
        (erase_coded code_key (h.tables .coinBalances (by decide)) address)
        (h.legible.congr rfl) rfl (by decide)
        fun u hu => by cases u <;> first | rfl | exact absurd rfl hu
    rw [if_pos hzero, if_pos hzero, discard_apply (ofKey_ne_nil address)]
    exact .ok h₁
  · have h₁ : Mirrors { l with coinBalances := l.coinBalances.insert address amount } _ :=
      h.write .coinBalances
        (insert_coded code_key (h.tables .coinBalances (by decide)) address amount)
        (h.legible.congr rfl) rfl (by decide)
        fun u hu => by cases u <;> first | rfl | exact absurd rfl hu
    rw [if_neg hzero, if_neg hzero, put_apply (fitsKey_ofKey address)]
    exact .ok h₁

theorem fitsKey_cursor : FitsKey cursorKey := ⟨utf8_ne_nil (by decide), by decide⟩
theorem fitsKey_synced : FitsKey syncedKey := ⟨utf8_ne_nil (by decide), by decide⟩

theorem agree_setCursor (c : Cursor) :
    Agree Mirrors (LedgerEdits.setCursor c : Edit Ledger Unit)
      (LedgerEdits.setCursor c : Edit Database Unit) := by
  intro l db h
  have hput : (LedgerEdits.setCursor c : Edit Database Unit) db = .ok () (db.setTable .notes
      ((db.table .notes).insert cursorKey c.toBytes)) := put_apply fitsKey_cursor
  have hset : (LedgerEdits.setCursor c : Edit Ledger Unit) l =
      .ok () { l with cursor := some c } := rfl
  rw [hput, hset]
  refine .ok (h.withNotes (fun t => by cases t <;> rfl) (h.legible.congr rfl) fun key => ?_)
  rw [get?_insert, h.notes]
  unfold noted
  split <;> rfl

theorem agree_setSynced (p : ChainPoint) :
    Agree Mirrors (LedgerEdits.setSynced p : Edit Ledger Unit)
      (LedgerEdits.setSynced p : Edit Database Unit) := by
  intro l db h
  have hput : (LedgerEdits.setSynced p : Edit Database Unit) db = .ok () (db.setTable .notes
      ((db.table .notes).insert syncedKey p.toBytes)) := put_apply fitsKey_synced
  have hset : (LedgerEdits.setSynced p : Edit Ledger Unit) l =
      .ok () { l with synced := some p } := rfl
  rw [hput, hset]
  refine .ok (h.withNotes (fun t => by cases t <;> rfl) (h.legible.congr rfl) fun key => ?_)
  have hne : syncedKey ≠ cursorKey := by decide
  rw [get?_insert, h.notes]
  unfold noted
  by_cases hkey : key = syncedKey
  · rw [if_pos hkey, hkey, if_neg hne, if_pos rfl]
    rfl
  · rw [if_neg hkey, if_neg hkey, if_neg hkey]

end CivicLedger.Database
