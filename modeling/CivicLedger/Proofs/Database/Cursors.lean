import CivicLedger.Proofs.Chain.Runs
import CivicLedger.Proofs.Database.Backends

/-!
# Cursors

Cursors stand in the order of the positions that are behind them. The one behind a transaction is
further than the one at it, except at the largest index. Both stores read the cursor that they were
given.
-/

namespace CivicLedger

open Program

namespace Cursor

variable {c d : Cursor}

def rank (c : Cursor) : Nat := c.height.toNat * UInt32.size + c.nextTx.toNat

theorem compare_eq_compare_rank (c d : Cursor) : c.compare d = Ord.compare c.rank d.rank := by
  have hc := c.nextTx.toNat_lt
  have hd := d.nextTx.toNat_lt
  have hsize : UInt32.size = 2 ^ 32 := rfl
  unfold Cursor.compare rank
  rw [hsize]
  rcases Nat.lt_trichotomy c.height.toNat d.height.toNat with h | h | h
  · have hlt : c.height < d.height := UInt64.lt_iff_toNat_lt.mpr h
    rw [Nat.compare_eq_lt.mpr (by omega)]
    simp [Ord.compare, compareOfLessAndEq, hlt]
  · have heq : c.height = d.height := UInt64.toNat_inj.mp h
    rw [heq]
    simp [Ord.compare, compareOfLessAndEq, UInt32.lt_iff_toNat_lt, ← UInt32.toNat_inj]
  · have hnot : ¬ c.height < d.height := by
      rw [UInt64.lt_iff_toNat_lt]
      omega
    have hne : c.height ≠ d.height := by
      rw [ne_eq, ← UInt64.toNat_inj]
      omega
    rw [Nat.compare_eq_gt.mpr (by omega)]
    simp [Ord.compare, compareOfLessAndEq, hnot, hne]

theorem compare_eq_lt : c.compare d = .lt ↔ c.rank < d.rank := by
  rw [compare_eq_compare_rank, Nat.compare_eq_lt]

theorem compare_ne_gt : c.compare d ≠ .gt ↔ c.rank ≤ d.rank := by
  rw [compare_eq_compare_rank, Nat.compare_ne_gt]

theorem rank_injective (h : c.rank = d.rank) : c = d := by
  have hc := c.nextTx.toNat_lt
  have hd := d.nextTx.toNat_lt
  have hsize : UInt32.size = 2 ^ 32 := rfl
  unfold rank at h
  rw [hsize] at h
  obtain ⟨height, index⟩ := c
  obtain ⟨height', index'⟩ := d
  have hheight : height = height' := UInt64.toNat_inj.mp (by dsimp only at *; omega)
  have hindex : index = index' := UInt32.toNat_inj.mp (by dsimp only at *; omega)
  rw [hheight, hindex]

/-- The index that the cursor cannot move behind. -/
def lastIndex : UInt32 := 0xffffffff

def next (c : Cursor) : Cursor := ⟨c.height, Chain.indexAfter c.nextTx⟩

theorem toNat_indexAfter {i : UInt32} (h : i ≠ lastIndex) :
    (Chain.indexAfter i).toNat = i.toNat + 1 := by
  have hlt := i.toNat_lt
  have hsize : UInt32.size = 2 ^ 32 := rfl
  have hlast : lastIndex.toNat = 2 ^ 32 - 1 := rfl
  have hne : i.toNat ≠ lastIndex.toNat := fun he => h (UInt32.toNat_inj.mp he)
  have hone : (1 : UInt32).toNat = 1 := rfl
  unfold Chain.indexAfter
  rw [if_pos (by omega), UInt32.toNat_add, hone, Nat.mod_eq_of_lt (by omega)]

theorem le_toNat_indexAfter (i : UInt32) : i.toNat ≤ (Chain.indexAfter i).toNat := by
  by_cases h : i = lastIndex
  · rw [h]
    decide
  · rw [toNat_indexAfter h]
    omega

theorem toNat_indexAfter_le {i j : UInt32} (h : i < j) : (Chain.indexAfter i).toNat ≤ j.toNat := by
  have hlt := UInt32.lt_iff_toNat_lt.mp h
  have hbound := j.toNat_lt
  have hlast : lastIndex.toNat = 2 ^ 32 - 1 := rfl
  have hne : i ≠ lastIndex := by
    intro he
    rw [he] at hlt
    omega
  rw [toNat_indexAfter hne]
  omega

theorem rank_next (h : c.nextTx ≠ lastIndex) : c.next.rank = c.rank + 1 := by
  unfold next rank
  dsimp only
  rw [toNat_indexAfter h]
  omega

theorem rank_le_of_height_lt (h : c.height < d.height) : c.rank ≤ d.rank := by
  have hlt := UInt64.lt_iff_toNat_lt.mp h
  have hc := c.nextTx.toNat_lt
  have hsize : UInt32.size = 2 ^ 32 := rfl
  unfold rank
  rw [hsize]
  omega

theorem rank_le_rank_next (c : Cursor) : c.rank ≤ c.next.rank :=
  Nat.add_le_add_left (le_toNat_indexAfter c.nextTx) _

/-- What is not before the cursor behind a position comes after it, unless both are at the largest
index. -/
theorem lt_or_eq_of_next_le (h : c.next.rank ≤ d.rank) :
    c.compare d = .lt ∨ c = d ∧ c.nextTx = lastIndex := by
  rw [compare_eq_lt]
  have hle := c.rank_le_rank_next
  by_cases hlt : c.rank < d.rank
  · exact .inl hlt
  · refine .inr ⟨rank_injective (by omega), ?_⟩
    by_contra hne
    have hnext := rank_next hne
    omega

end Cursor

namespace Chain

open LedgerReads LedgerEdits

/-- A store that reads the cursor it was given, and keeps it while bills are settled. -/
class HoldsCursor (σ : Type) [LedgerEdits σ] : Prop where
  set : ∀ {c : Cursor} {s s' : σ}, setCursor c s = .ok () s' → cursor? s' = .ok (some c)
  settle : ∀ (id : BillId) (r : Settlement) (weights : List (KeyId × UInt64)),
    Keeps cursor? (settle id r weights : Edit σ Unit)

section

variable {σ : Type} [LedgerEdits σ] [HoldsCursor σ] {fees : FeeSchedule} {b : Block} {tx : Tx}
  {s t : σ}

theorem keeps_settleBill (b : Block) (coins : Coins) (id : BillId) :
    Keeps cursor? (settleBill b coins id : Step σ _) := by
  unfold settleBill
  refine (Keeps.read _).bind fun bill => ?_
  cases bill with
  | none => exact .throw _
  | some bill =>
    refine (Keeps.read _).bind fun votes => ?_
    exact (HoldsCursor.settle id _ _).consistent.bind fun _ => .pure _

theorem cursor?_of_stored {c : Cursor} (h : Step.stored (setCursor c) s = .ok () t) :
    cursor? t = .ok (some c) := by
  unfold Step.stored at h
  cases hset : setCursor c s with
  | error fault t' => rw [hset] at h; cases h
  | ok u t' =>
    rw [hset] at h
    cases h
    exact HoldsCursor.set hset

theorem cursor?_applyTx {outcome : TxOutcome} (h : applyTx fees b tx s = .ok outcome t) :
    cursor? t = .ok (some (Cursor.mk b.height tx.index).next) := by
  rw [applyTx_eq, atomically_eq_ok] at h
  obtain ⟨_, mid, _, h⟩ := bind_eq_ok.mp h
  obtain ⟨_, t', hset, hpure⟩ := bind_eq_ok.mp h
  obtain ⟨_, rfl⟩ := pure_eq_ok.mp hpure
  exact cursor?_of_stored hset

end

end Chain

namespace Ledger

theorem keeps_cursor_settle (id : BillId) (r : Settlement) (weights : List (KeyId × UInt64)) :
    Keeps LedgerReads.cursor? (settle id r weights) := by
  unfold settle
  refine Keeps.bind (fun _ => rfl) fun l => ?_
  cases l.bills.get? id with
  | none => exact .throw _
  | some bill =>
    have hensure : Keeps (LedgerReads.cursor? : Ledger → _)
        (ensureAbsent (.settlement id) (l.settlements.contains id)) := by
      unfold ensureAbsent
      split
      · exact .throw _
      · exact .pure _
    have hweigh := keeps_weigh LedgerReads.cursor? id (fun _ _ => rfl) weights
    exact hensure.bind fun _ => hweigh.bind fun _ _ => rfl

instance : Chain.HoldsCursor Ledger where
  set h := by
    cases h
    rfl
  settle := keeps_cursor_settle

end Ledger

namespace Database

variable {db : Database} {t : TableName}

theorem cursor?_setTable (content : Table) (h : t ≠ .notes) :
    LedgerReads.cursor? (db.setTable t content) = LedgerReads.cursor? db := by
  have htable := table_setTable_ne db content h.symm
  have hget : (db.setTable t content).get? .notes cursorKey = db.get? .notes cursorKey := by
    unfold get?
    rw [htable]
  change record? Cursor.reader _ .notes cursorKey = record? Cursor.reader _ .notes cursorKey
  unfold record?
  rw [hget]

theorem keeps_cursor_put (key value : Bytes) (h : t ≠ .notes) :
    Keeps LedgerReads.cursor? (put t key value) := by
  intro db
  unfold put
  split
  · rfl
  · exact cursor?_setTable _ h

theorem keeps_cursor_discard (key : Bytes) (h : t ≠ .notes) :
    Keeps LedgerReads.cursor? (discard t key) := by
  intro db
  unfold discard remove
  split
  · rfl
  · exact cursor?_setTable _ h

theorem keeps_cursor_weigh (id : BillId) (voter : KeyId) (weight : UInt64) :
    Keeps LedgerReads.cursor? (weigh id voter weight) := by
  unfold weigh
  refine (Keeps.edit_read _).bind fun ballot => ?_
  cases ballot with
  | none => exact .throw _
  | some ballot => exact keeps_cursor_put _ _ (by decide)

theorem keeps_cursor_settle (id : BillId) (r : Settlement) (weights : List (KeyId × UInt64)) :
    Keeps LedgerReads.cursor? (settle id r weights) := by
  unfold settle
  refine (Keeps.edit_read _).bind fun bill => ?_
  cases bill with
  | none => exact .throw _
  | some bill =>
    have hensure : Keeps LedgerReads.cursor?
        (ensureAbsent .settlements (Key.ofBill id) (.settlement id)) := by
      refine (Keeps.edit_read _).bind fun there => ?_
      split
      · exact .throw _
      · exact .pure _
    refine hensure.bind fun _ => ?_
    refine (keeps_cursor_put _ _ (by decide)).bind fun _ => ?_
    refine (keeps_cursor_discard _ (by decide)).bind fun _ => ?_
    exact .forM fun e _ => keeps_cursor_weigh id e.1 e.2

instance : Chain.HoldsCursor Database where
  set {c db db'} h := by
    have hput : (LedgerEdits.setCursor c : Edit Database Unit) db = .ok () (db.setTable .notes
        ((db.table .notes).insert cursorKey c.toBytes)) := put_apply fitsKey_cursor
    rw [hput] at h
    cases h
    change record? Cursor.reader _ .notes cursorKey = _
    unfold record?
    rw [get?_ok fitsKey_cursor.1, table_setTable_self, SortedMap.get?_insert_self]
    simp only [bind, Except.bind, decodeWith_of_reads (Cursor.reads c)]
    rfl
  settle := keeps_cursor_settle

end Database

instance (k : Backend) : Chain.HoldsCursor k.Store :=
  match k with
  | .memory => inferInstanceAs (Chain.HoldsCursor Ledger)
  | .tables => inferInstanceAs (Chain.HoldsCursor Database)

end CivicLedger
