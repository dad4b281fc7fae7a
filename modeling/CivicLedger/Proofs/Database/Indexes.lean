import CivicLedger.Proofs.Database.Backends
import CivicLedger.Proofs.State.Indexes

/-!
# Indexes while batches are under way

Whatever calls are made on a store, in batches that are committed or dropped, its indexes say what
its tables say. On a database each table is then as long as the indexes beside it, so that its
health report names no mismatch. A settlement that fails half way is no exception, even where the
batch goes on.
-/

namespace CivicLedger

open Program

namespace Ledger

theorem preserves_call (c : Call) : Preserves Indexed (c.run : Edit Ledger Unit) := by
  cases c with
  | insertDelegate d => exact preserves_insertDelegate d
  | addDelegateVote voter delegate => exact preserves_addDelegateVote voter delegate
  | removeDelegateVote voter delegate => exact preserves_removeDelegateVote voter delegate
  | insertCommittee c => exact preserves_insertCommittee c
  | putCommitteeVote voter committee => exact preserves_putCommitteeVote voter committee
  | removeCommitteeVote voter committee => exact preserves_removeCommitteeVote voter committee
  | insertBill b => exact preserves_insertBill b
  | putBallot bill voter choice => exact preserves_putBallot bill voter choice
  | settle bill s weights => exact preserves_settle bill s weights
  | insertName address name => exact preserves_insertName address name
  | insertToken t => exact preserves_insertToken t
  | setTokenBalance token holder amount => exact preserves_setTokenBalance token holder amount
  | addLock k => exact preserves_addLock k
  | removeLock token holder expiry => exact preserves_removeLock token holder expiry
  | setCoinBalance address amount => exact preserves_setCoinBalance address amount
  | setSynced p => exact fun l h => { h with }
  | setCursor c => exact fun l h => { h with }

end Ledger

namespace Database

def HoldsA (I : Ledger → Prop) (db : Database) : Prop := ∃ l, Mirrors l db ∧ I l

theorem Agree.preserves {α : Type} {I : Ledger → Prop} {p : Edit Ledger α} {q : Edit Database α}
    (h : Agree Mirrors p q) (hp : Preserves I p) : Preserves (HoldsA I) q := by
  rintro db ⟨l, hm, hl⟩
  have hboth := h l db hm
  have hleft := hp l hl
  generalize p l = r, q db = r' at hboth hleft
  cases hboth with
  | ok hm' => exact ⟨_, hm', hleft⟩
  | error hm' => exact ⟨_, hm', hleft⟩

theorem preserves_settle (bill : BillId) {s : Settlement} (hs : s.Fits)
    (weights : List (KeyId × UInt64)) :
    Preserves (HoldsA Ledger.Indexed) (settle bill s weights) := by
  rintro db ⟨l, hm, hl⟩
  rw [settle_of_mirrors hm]
  cases hb : l.bills.get? bill with
  | none => exact ⟨l, hm, hl⟩
  | some b =>
    simp only []
    split
    · exact ⟨l, hm, hl⟩
    -- The settlement is written, and weighing the votes keeps the indexes wherever it stops.
    have hmarked : HoldsA Ledger.Indexed (db.marked bill b.closes s) :=
      ⟨_, hm.marked bill b.closes hs, hl.withSettlement hb s⟩
    refine Preserves.forM (fun e _ => ?_) _ hmarked
    exact (agree_weigh bill e.1 e.2).preserves (Ledger.preserves_weigh bill e.1 e.2)

theorem preserves_call {c : Call} (h : c.Fits) :
    Preserves (HoldsA Ledger.Indexed) (c.run : Edit Database Unit) := by
  by_cases hspoils : c.spoils = true
  · cases c with
    | settle bill s weights => exact preserves_settle bill h weights
    | _ => cases hspoils
  · have hcalm := Bool.eq_false_iff.mpr hspoils
    exact (agree_call_of_calm h hcalm).preserves (Ledger.preserves_call c)

theorem Mirrors.size_table {l : Ledger} {db : Database} (h : Mirrors l db) {t : TableName}
    (ht : t ≠ .notes) : (db.table t).size = (rows l t).length := by
  unfold SortedMap.size
  rw [h.tables t ht]

/-- Each index has as many entries as the table beside it. -/
theorem mismatches_of_indexed {l : Ledger} {db : Database} (h : Mirrors l db) (hl : l.Indexed) :
    db.health.mismatches = [] := by
  have hsize : ∀ e ∈ indexPairs, (db.table e.1).size = (db.table e.2).size := by
    intro e he
    have hnotes : ∀ e ∈ indexPairs, e.1 ≠ .notes ∧ e.2 ≠ .notes := by decide
    rw [h.size_table (hnotes e he).1, h.size_table (hnotes e he).2]
    have hlength {κ α : Type} [KeyOrder κ] (key : κ → Bytes) (val : α → Bytes)
        (m : SortedMap κ α) : (coded key val m).length = m.size := List.length_map _
    simp only [indexPairs, List.mem_cons, List.not_mem_nil, or_false] at he
    rcases he with rfl | rfl | rfl | rfl | rfl | rfl | rfl | rfl | rfl <;>
      simp only [rows, hlength]
    · exact hl.delegateNames.size_eq
    · exact hl.delegateVoters.size_eq
    · exact hl.committeeNames.size_eq
    · exact hl.committeeVoters.size_eq
    · exact hl.committeeBills.size_eq
    · exact hl.votedBills.size_eq
    · exact hl.namedKeys.size_eq
    · exact hl.tokenAddresses.size_eq
    · exact hl.tokenSymbols.size_eq
  unfold health
  rw [List.filterMap_eq_nil_iff]
  intro e he
  exact if_pos (hsize e he)

end Database

namespace Backend

/-- The calls that a store is made for: tables take only keys of some lengths. -/
def Takes : Backend → Call → Prop
  | memory, _ => True
  | tables, c => c.Fits

/-- What batches of calls lead to from a new store. A call that fails leaves what it had written,
and the batch may go on. -/
inductive Batched (k : Backend) : Workspace k.Store → Prop where
  | opened : Batched k (.settled k.opened)
  | call {w : Workspace k.Store} (c : Call) (hc : k.Takes c) (hw : Batched k w) :
    Batched k { w with working := left (c.run w.working) }
  | commit {w : Workspace k.Store} (hw : Batched k w) : Batched k (.settled w.working)
  | drop {w : Workspace k.Store} (hw : Batched k w) : Batched k (.settled w.stored)

def Indexed : (k : Backend) → k.Store → Prop
  | memory, l => Ledger.Indexed l
  | tables, db => Database.HoldsA Ledger.Indexed db ∧ (Database.health db).mismatches = []

theorem indexed_tables {db : Database} (h : Database.HoldsA Ledger.Indexed db) :
    tables.Indexed db := by
  obtain ⟨l, hm, hl⟩ := h
  exact ⟨⟨l, hm, hl⟩, Database.mismatches_of_indexed hm hl⟩

theorem indexed_opened (k : Backend) : k.Indexed k.opened := by
  cases k with
  | memory => exact Ledger.indexed_empty
  | tables => exact indexed_tables ⟨∅, Database.mirrors_opened, Ledger.indexed_empty⟩

theorem preserves_call {k : Backend} {c : Call} (hc : k.Takes c) :
    Preserves k.Indexed (c.run : Edit k.Store Unit) := by
  cases k with
  | memory => exact Ledger.preserves_call c
  | tables => exact fun db h => indexed_tables (Database.preserves_call hc db h.1)

/-- Whatever calls are made in batches that are committed or dropped, the indexes say what the tables
say, in what is stored and in the open batch. -/
theorem indexed_of_batched {k : Backend} {w : Workspace k.Store} (h : k.Batched w) :
    k.Indexed w.stored ∧ k.Indexed w.working := by
  induction h with
  | opened => exact ⟨k.indexed_opened, k.indexed_opened⟩
  | call c hc _ ih => exact ⟨ih.1, preserves_call hc _ ih.2⟩
  | commit _ ih => exact ⟨ih.2, ih.2⟩
  | drop _ ih => exact ⟨ih.1, ih.1⟩

theorem indexed_after_a_name_taken :
    let given := left ((Call.insertName ⟨.fill 20 1⟩ "ada").run Database.opened)
    let taken := left ((Call.insertName ⟨.fill 20 2⟩ "ada").run given)
    tables.Batched ⟨Database.opened, taken⟩ ∧ (Database.table taken .names).size = 1 ∧
      tables.Indexed Database.opened ∧ tables.Indexed taken := by
  intro given taken
  have hname : "ada" ≠ "" ∧ (utf8 "ada").length ≤ 511 := by decide
  have hgiven : tables.Batched ⟨Database.opened, given⟩ :=
    .call (k := tables) (.insertName ⟨.fill 20 1⟩ "ada") hname .opened
  have htaken : tables.Batched ⟨Database.opened, taken⟩ :=
    .call (k := tables) (.insertName ⟨.fill 20 2⟩ "ada") hname hgiven
  exact ⟨htaken, by decide +kernel, indexed_of_batched htaken⟩

end Backend

end CivicLedger
