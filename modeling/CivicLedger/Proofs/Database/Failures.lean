import CivicLedger.Proofs.Database.Backends

/-!
# What a failed call leaves

A call looks first and writes afterwards: where one of its looks fails nothing has been written yet,
and where it writes the writes succeed, as long as its names and symbols are keys that the tables
take. So a failed call leaves the store as it was. The exception is a settlement that names somebody
without a vote: it finds the vote missing with a part of itself written already, and which part
differs between the stores.
-/

namespace CivicLedger

namespace Program

variable {ε σ α β : Type}

def fault? : EStateM.Result ε σ α → Option ε
  | .ok _ _ => none
  | .error e _ => some e

theorem eq_ok_left {r : EStateM.Result ε σ Unit} (h : fault? r = none) : r = .ok () (left r) := by
  cases r with
  | ok a s => rfl
  | error e s => cases h

theorem eq_error_left {r : EStateM.Result ε σ α} {e : ε} (h : fault? r = some e) :
    r = .error e (left r) := by
  cases r with
  | ok a s => cases h
  | error e' s =>
    cases h
    rfl

/-- A result from `s` that is no fault, or a fault that has left `s` as it was. -/
def Unharmed (s : σ) : EStateM.Result ε σ α → Prop
  | .ok _ _ => True
  | .error _ s' => s' = s

def Harmless (p : EStateM ε σ α) : Prop := ∀ s, Unharmed s (p s)

theorem Unharmed.ite {s : σ} {c : Prop} [Decidable c] {r r' : EStateM.Result ε σ α}
    (h : Unharmed s r) (h' : Unharmed s r') : Unharmed s (if c then r else r') := by
  split
  · exact h
  · exact h'

def Sure (p : EStateM ε σ α) : Prop := ∀ s, ∃ a s', p s = .ok a s'

namespace Sure

theorem pure (a : α) : Sure (pure a : EStateM ε σ α) := fun s => ⟨a, s, rfl⟩

theorem bind {p : EStateM ε σ α} {f : α → EStateM ε σ β} (hp : Sure p) (hf : ∀ a, Sure (f a)) :
    Sure (p >>= f) := by
  intro s
  obtain ⟨a, t, ha⟩ := hp s
  rw [bind_ok ha]
  exact hf a t

theorem ite {c : Prop} [Decidable c] {p q : EStateM ε σ α} (hp : Sure p) (hq : Sure q) :
    Sure (if c then p else q) := by
  split
  · exact hp
  · exact hq

theorem harmless {p : EStateM ε σ α} (hp : Sure p) : Harmless p := by
  intro s
  obtain ⟨a, t, ha⟩ := hp s
  rw [ha]
  trivial

end Sure

namespace Harmless

theorem throw (e : ε) : Harmless (throw e : EStateM ε σ α) := fun _ => rfl

/-- Looking first does no harm. -/
theorem look {p : EStateM ε σ α} {f : α → EStateM ε σ β} (hp : Keeps id p)
    (hf : ∀ a, Harmless (f a)) : Harmless (p >>= f) := by
  intro s
  have hs : left (p s) = s := hp s
  rw [bind_apply]
  cases hps : p s with
  | ok a t =>
    rw [hps] at hs
    cases hs
    exact hf a _
  | error e t =>
    rw [hps] at hs
    exact hs

theorem ite {c : Prop} [Decidable c] {p q : EStateM ε σ α} (hp : Harmless p) (hq : Harmless q) :
    Harmless (if c then p else q) := by
  split
  · exact hp
  · exact hq

end Harmless

end Program

open Program

namespace Ledger

theorem harmless_call {c : Call} (h : c.spoils = false) : Harmless (c.run : Edit Ledger Unit) := by
  intro l
  cases c with
  | insertDelegate d =>
    change Unharmed l (insertDelegate d l)
    rw [insertDelegate_apply]
    exact .ite rfl (.ite rfl trivial)
  | addDelegateVote voter delegate =>
    change Unharmed l (addDelegateVote voter delegate l)
    rw [addDelegateVote_apply]
    exact .ite rfl trivial
  | removeDelegateVote voter delegate =>
    change Unharmed l (removeDelegateVote voter delegate l)
    rw [removeDelegateVote_apply]
    exact .ite trivial rfl
  | insertCommittee c =>
    change Unharmed l (insertCommittee c l)
    rw [insertCommittee_apply]
    exact .ite rfl (.ite rfl trivial)
  | putCommitteeVote voter committee =>
    change Unharmed l (putCommitteeVote voter committee l)
    rw [putCommitteeVote_apply]
    exact .ite rfl trivial
  | removeCommitteeVote voter committee =>
    change Unharmed l (removeCommitteeVote voter committee l)
    rw [removeCommitteeVote_apply]
    exact .ite trivial rfl
  | insertBill b =>
    change Unharmed l (insertBill b l)
    rw [insertBill_apply]
    exact .ite rfl trivial
  | putBallot bill voter choice =>
    change Unharmed l (putBallot bill voter choice l)
    rw [putBallot_apply]
    exact .ite rfl trivial
  | settle bill s weights => cases h
  | insertName address name =>
    change Unharmed l (insertName address name l)
    rw [insertName_apply]
    exact .ite rfl (.ite rfl trivial)
  | insertToken t =>
    change Unharmed l (insertToken t l)
    rw [insertToken_apply]
    exact .ite rfl (.ite rfl (.ite rfl trivial))
  | setTokenBalance token holder amount => trivial
  | addLock k =>
    change Unharmed l (addLock k l)
    rw [addLock_apply]
    split
    · rfl
    · trivial
  | removeLock token holder expiry =>
    change Unharmed l (removeLock token holder expiry l)
    rw [removeLock_apply]
    exact .ite trivial rfl
  | setCoinBalance address amount => trivial
  | setSynced p => trivial
  | setCursor c => trivial

end Ledger

namespace Database

variable {t : TableName} {key : Bytes}

theorem sure_put (h : FitsKey key) (value : Bytes) : Sure (put t key value) := fun _ =>
  ⟨(), _, put_apply h⟩

theorem sure_discard (h : key ≠ []) : Sure (discard t key) := fun _ => ⟨(), _, discard_apply h⟩

theorem keeps_ensureAbsent (t : TableName) (key : Bytes) (entry : Entry) :
    Keeps id (ensureAbsent t key entry) := by
  refine .bind (.edit_read _) fun found => ?_
  split
  · exact .throw _
  · exact .pure _

/-- Removing what is not there changes nothing. -/
theorem setTable_erase_of_absent {db : Database} (h : (db.table t).contains key = false) :
    db.setTable t ((db.table t).erase key) = db := by
  rw [SortedMap.erase_of_absent (SortedMap.contains_eq_false.mp h)]
  refine ext_table fun u => ?_
  by_cases hu : u = t
  · rw [hu, table_setTable_self]
  · exact table_setTable_ne db _ hu

/-- A removal that fails because the entry is not there. -/
theorem harmless_remove (h : key ≠ []) {p : Edit Database Unit} (hp : Sure p) (fault : StoreFault) :
    Harmless (do if ← remove t key then p else throw fault) := by
  intro db
  rw [bind_ok (remove_apply h)]
  cases hthere : (db.table t).contains key with
  | true =>
    obtain ⟨a, db', hok⟩ := hp (db.setTable t ((db.table t).erase key))
    rw [if_pos rfl, hok]
    trivial
  | false =>
    rw [if_neg Bool.false_ne_true, setTable_erase_of_absent hthere]
    rfl

end Database

def Call.KeysFit : Call → Prop
  | insertDelegate d => Database.FitsKey (utf8 d.name)
  | insertCommittee c => Database.FitsKey (utf8 c.name)
  | insertName _ name => Database.FitsKey (utf8 name)
  | insertToken t => Database.FitsKey (Key.ofKey t.owner ++ utf8 t.symbol)
  | _ => True

namespace Database

theorem sure_noteHolding (token : TokenId) (holder : KeyId) : Sure (noteHolding token holder) :=
  sure_put (fitsKey_keyToken holder token) _

theorem harmless_call {c : Call} (hkeys : c.KeysFit) (h : c.spoils = false) :
    Harmless (c.run : Edit Database Unit) := by
  have checked {t : TableName} {key : Bytes} {entry : Entry} {p : Edit Database Unit}
      (hp : Harmless p) : Harmless (ensureAbsent t key entry >>= fun _ => p) :=
    .look (keeps_ensureAbsent t key entry) fun _ => hp
  cases c with
  | insertDelegate d =>
    exact checked <| checked <| ((sure_put (fitsKey_ofKey _) _).bind fun _ =>
      sure_put hkeys _).harmless
  | addDelegateVote voter delegate =>
    exact checked ((sure_put (fitsKey_pair _ _) _).bind fun _ =>
      sure_put (fitsKey_pair _ _) _).harmless
  | removeDelegateVote voter delegate =>
    exact harmless_remove (fitsKey_pair _ _).1 (sure_discard (fitsKey_pair _ _).1) _
  | insertCommittee c =>
    exact checked <| checked <| ((sure_put (fitsKey_ofKey _) _).bind fun _ =>
      sure_put hkeys _).harmless
  | putCommitteeVote voter committee =>
    exact checked ((sure_put (fitsKey_ofKey _) _).bind fun _ =>
      sure_put (fitsKey_pair _ _) _).harmless
  | removeCommitteeVote voter committee =>
    refine .look (.edit_read _) fun found => .ite ?_ (.throw _)
    exact ((sure_discard (fitsKey_ofKey _).1).bind fun _ =>
      sure_discard (fitsKey_pair _ _).1).harmless
  | insertBill b =>
    exact checked ((sure_put (fitsKey_ofBill _) _).bind fun _ =>
      (sure_put (fitsKey_keyBill _ _) _).bind fun _ => sure_put (fitsKey_ofDue _ _) _).harmless
  | putBallot bill voter choice =>
    exact checked ((sure_put (fitsKey_billKey _ _) _).bind fun _ =>
      sure_put (fitsKey_keyBill _ _) _).harmless
  | settle bill s weights => cases h
  | insertName address name =>
    exact checked <| checked <| ((sure_put (fitsKey_ofKey _) _).bind fun _ =>
      sure_put hkeys _).harmless
  | insertToken t =>
    exact checked <| checked <| checked <|
      ((sure_put (fitsKey_of_length (length_ofToken _) (by decide)) _).bind fun _ =>
      (sure_put (fitsKey_ofKey _) _).bind fun _ => sure_put hkeys _).harmless
  | setTokenBalance token holder amount =>
    exact (Sure.ite (sure_discard (fitsKey_ofBalance _ _).1)
      ((sure_put (fitsKey_ofBalance _ _) _).bind fun _ => sure_noteHolding _ _)).harmless
  | addLock k =>
    refine .look (.edit_read _) fun found => ?_
    dsimp only
    split
    · exact .throw _
    · exact ((sure_put (fitsKey_ofLock _ _ _) _).bind fun _ => sure_noteHolding _ _).harmless
  | removeLock token holder expiry =>
    exact harmless_remove (fitsKey_ofLock _ _ _).1 (.pure _) _
  | setCoinBalance address amount =>
    exact (Sure.ite (sure_discard (fitsKey_ofKey _).1) (sure_put (fitsKey_ofKey _) _)).harmless
  | setSynced p => exact (sure_put fitsKey_synced _).harmless
  | setCursor c => exact (sure_put fitsKey_cursor _).harmless

end Database

def HasBallot {σ : Type} [LedgerReads σ] (s : σ) (bill : BillId) (voter : KeyId) : Prop :=
  ∃ ballot, LedgerReads.ballot? s bill voter = .ok (some ballot)

/-- Where it would settle a bill, a call names only voters that have voted on it. -/
def Call.Weighs {σ : Type} [LedgerReads σ] (s : σ) : Call → Prop
  | settle bill _ weights =>
    ∀ b, LedgerReads.bill? s bill = .ok (some b) → LedgerReads.settlement? s bill = .ok none →
      ∀ e ∈ weights, HasBallot s bill e.1
  | _ => True

theorem Ledger.unharmed_settle {l : Ledger} {bill : BillId} {s : Settlement}
    {weights : List (KeyId × UInt64)} (h : (Call.settle bill s weights).Weighs l) :
    Unharmed l (settle bill s weights l) := by
  cases hbill : l.bills.get? bill with
  | none =>
    unfold settle
    rw [get_bind, hbill]
    rfl
  | some b =>
    cases hsettled : l.settlements.get? bill with
    | none =>
      have hthere : ∀ e ∈ weights, l.ballots.contains (bill, e.1) = true := fun e he => by
        obtain ⟨ballot, hballot⟩ := h b (congrArg Except.ok hbill) (congrArg Except.ok hsettled) e he
        exact SortedMap.contains_eq_true.mpr ⟨ballot, Except.ok.inj hballot⟩
      rw [settle_of_present l s hbill hsettled hthere]
      trivial
    | some old =>
      have hcontains := SortedMap.contains_eq_true.mpr ⟨old, hsettled⟩
      unfold settle
      rw [get_bind, hbill]
      simp only []
      rw [ensureAbsent_bind, hcontains]
      rfl

namespace Database

/-- Weighing a vote takes no vote away. -/
theorem hasBallot_put {db : Database} {bill : BillId} {voter : KeyId} (h : HasBallot db bill voter)
    (key : Bytes) (ballot : Ballot) :
    HasBallot (db.setTable .ballots ((db.table .ballots).insert key ballot.toBytes)) bill voter := by
  have hne := (fitsKey_billKey bill voter).1
  by_cases hkey : Key.ofBill bill ++ Key.ofKey voter = key
  · refine ⟨ballot, ?_⟩
    change record? Ballot.reader _ .ballots _ = _
    unfold record?
    rw [get?_ok hne, table_setTable_self, SortedMap.get?_insert, if_pos hkey]
    simp only [bind, Except.bind, decodeWith_of_reads (Ballot.reads ballot)]
    rfl
  · obtain ⟨old, hold⟩ := h
    refine ⟨old, ?_⟩
    change record? Ballot.reader _ .ballots _ = _ at hold ⊢
    unfold record? at hold ⊢
    rw [get?_ok hne] at hold ⊢
    rw [table_setTable_self, SortedMap.get?_insert, if_neg hkey]
    exact hold

theorem hasBallot_marked {db : Database} {bill : BillId} {voter : KeyId}
    (h : HasBallot db bill voter) (closes : Timestamp) (s : Settlement) :
    HasBallot (db.marked bill closes s) bill voter := by
  have hsame : (db.marked bill closes s).table .ballots = db.table .ballots := by
    unfold Database.marked
    rw [table_setTable_ne _ _ (by decide), table_setTable_ne _ _ (by decide)]
  obtain ⟨ballot, hballot⟩ := h
  refine ⟨ballot, ?_⟩
  change record? Ballot.reader _ .ballots _ = _ at hballot ⊢
  unfold record? Database.get? at hballot ⊢
  rw [hsame]
  exact hballot

/-- Votes that are all there are all weighed. -/
theorem forM_weigh_ok {bill : BillId} (weights : List (KeyId × UInt64)) {db : Database}
    (h : ∀ e ∈ weights, HasBallot db bill e.1) :
    ∃ db', (weights.forM fun e => weigh bill e.1 e.2) db = .ok () db' := by
  induction weights generalizing db with
  | nil => exact ⟨db, rfl⟩
  | cons e rest ih =>
    obtain ⟨ballot, hballot⟩ := h e List.mem_cons_self
    have hread : Edit.read (LedgerReads.ballot? · bill e.1) db = .ok (some ballot) db :=
      edit_read_of_ok hballot
    have hweigh : weigh bill e.1 e.2 db = .ok () (db.setTable .ballots
        ((db.table .ballots).insert (Key.ofBill bill ++ Key.ofKey e.1)
          { ballot with weight := some e.2 }.toBytes)) :=
      (bind_ok hread _).trans (put_apply (fitsKey_billKey bill e.1))
    rw [List.forM_eq_forM, List.forM_cons, bind_ok hweigh]
    exact ih fun x hx => hasBallot_put (h x (List.mem_cons_of_mem e hx)) _ _

theorem unharmed_settle {db : Database} {bill : BillId} {s : Settlement}
    {weights : List (KeyId × UInt64)} (h : (Call.settle bill s weights).Weighs db) :
    Unharmed db (settle bill s weights db) := by
  unfold settle
  cases hbill : (LedgerReads.bill? db bill : Except StoreFault (Option Bill)) with
  | error fault =>
    have hread : Edit.read (LedgerReads.bill? · bill) db = .error fault db :=
      edit_read_of_error hbill
    rw [bind_error hread]
    rfl
  | ok found =>
    have hread : Edit.read (LedgerReads.bill? · bill) db = .ok found db := edit_read_of_ok hbill
    rw [bind_ok hread]
    cases found with
    | none => rfl
    | some b =>
      simp only []
      rw [ensureAbsent_bind (ofBill_ne_nil bill)]
      cases hthere : (db.table .settlements).contains (Key.ofBill bill) with
      | true => rfl
      | false =>
        have hsettled : LedgerReads.settlement? db bill = .ok none := by
          change record? Settlement.reader db .settlements (Key.ofBill bill) = _
          unfold record?
          rw [get?_ok (ofBill_ne_nil bill), SortedMap.contains_eq_false.mp hthere]
          rfl
        obtain ⟨db', hdb'⟩ := forM_weigh_ok weights fun e he =>
          hasBallot_marked (h b hbill hsettled e he) b.closes s
        rw [if_neg Bool.false_ne_true, put_bind (fitsKey_ofBill bill),
          bind_ok (discard_apply (fitsKey_ofDue b.closes bill).1)]
        exact (congrArg (Unharmed db) hdb').mpr trivial

end Database

theorem Backend.unharmed_call (k : Backend) {s : k.Store} {c : Call} (hkeys : c.KeysFit)
    (hweighs : c.Weighs s) : Unharmed s ((c.run : Edit k.Store Unit) s) := by
  cases hspoils : c.spoils with
  | false =>
    cases k with
    | memory => exact Ledger.harmless_call hspoils s
    | tables => exact Database.harmless_call hkeys hspoils s
  | true =>
    cases c with
    | settle bill st weights =>
      cases k with
      | memory => exact Ledger.unharmed_settle hweighs
      | tables => exact Database.unharmed_settle hweighs
    | _ => cases hspoils

/-- A call that fails leaves the store as it was, on both stores and whatever they hold, unless it
is a settlement that names somebody who has not voted on the bill. -/
theorem Backend.unchanged_by_failure (k : Backend) {s s' : k.Store} {c : Call} {fault : StoreFault}
    (hkeys : c.KeysFit) (hweighs : c.Weighs s)
    (h : (c.run : Edit k.Store Unit) s = .error fault s') : s' = s := by
  have hs := k.unharmed_call hkeys hweighs
  rw [h] at hs
  exact hs

theorem Backend.unchanged_by_failure_name_taken :
    let ada : KeyId := ⟨.fill 20 160⟩
    let bob : KeyId := ⟨.fill 20 176⟩
    let call : Call := .insertName bob "ada"
    ∃ s s' : Database,
      ((Call.insertName ada "ada").run : Edit Database Unit) Database.opened = .ok () s ∧
      call.KeysFit ∧ call.Weighs s ∧
      (call.run : Edit Database Unit) s = .error (.duplicate (.name "ada")) s' ∧ s' = s := by
  intro ada bob call
  let named := left (((Call.insertName ada "ada").run : Edit Database Unit) Database.opened)
  have hkeys : call.KeysFit := ⟨by decide, by decide⟩
  have hfails : (call.run : Edit Database Unit) named = .error (.duplicate (.name "ada"))
      (left ((call.run : Edit Database Unit) named)) := rfl
  exact ⟨named, _, rfl, hkeys, trivial, hfails,
    Backend.unchanged_by_failure .tables (c := call) hkeys trivial hfails⟩

/-- Two voters are named and one of them has not voted. In memory the settlement fails with the vote
of the other weighed and the bill still due; in tables the bill has a settlement then and is no
longer due. -/
theorem Backend.half_settled :
    let ada : KeyId := ⟨.fill 20 160⟩
    let bob : KeyId := ⟨.fill 20 176⟩
    let bill : Bill := ⟨⟨.fill 20 1⟩, "t", "", "", ⟨.fill 20 7⟩, 0, 10, ["a", "b"], 1⟩
    let outcome : Settlement := ⟨true, some 0, 12, [12, 0], 3, 10⟩
    let calls : List Call := [.insertBill bill, .putBallot bill.id ada 0]
    let call : Call := .settle bill.id outcome [(ada, 5), (bob, 7)]
    call.KeysFit ∧ ∀ k : Backend, ∃ s s' : k.Store,
      (calls.forM Call.run : Edit k.Store Unit) k.opened = .ok () s ∧
      (call.run : Edit k.Store Unit) s = .error (.notFound (.ballot bob bill.id)) s' ∧
      LedgerReads.ballot? s bill.id ada = .ok (some ⟨0, none⟩) ∧
      LedgerReads.settlement? s bill.id = .ok none ∧ LedgerReads.billsDue s 10 = .ok [bill.id] ∧
      LedgerReads.ballot? s' bill.id ada = .ok (some ⟨0, some 5⟩) ∧
      match k with
      | .memory => LedgerReads.settlement? s' bill.id = .ok none ∧
          LedgerReads.billsDue s' 10 = .ok [bill.id]
      | .tables => LedgerReads.settlement? s' bill.id = .ok (some outcome) ∧
          LedgerReads.billsDue s' 10 = .ok [] := by
  intro ada bob bill outcome calls call
  refine ⟨trivial, fun k => ?_⟩
  let voted : k.Store := left ((calls.forM Call.run : Edit k.Store Unit) k.opened)
  refine ⟨voted, left ((call.run : Edit k.Store Unit) voted), ?_⟩
  cases k with
  | memory =>
    exact ⟨eq_ok_left (by decide +kernel), eq_error_left (by decide +kernel), by decide +kernel,
      by decide +kernel, by decide +kernel, by decide +kernel, by decide +kernel,
      by decide +kernel⟩
  | tables =>
    exact ⟨eq_ok_left (by decide +kernel), eq_error_left (by decide +kernel), by decide +kernel,
      by decide +kernel, by decide +kernel, by decide +kernel, by decide +kernel,
      by decide +kernel⟩

end CivicLedger
