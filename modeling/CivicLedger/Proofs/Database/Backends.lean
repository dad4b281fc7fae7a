import CivicLedger.Proofs.Database.Batches

/-!
# The stores of a ledger

A ledger is kept in memory or in the tables of a database. What is said of both is said of a
backend.
-/

namespace CivicLedger

def Ledger.withoutCoins (l : Ledger) : Ledger := { l with coinBalances := ∅, synced := none }

def Database.withoutCoins (db : Database) : Database :=
  (db.setTable .coinBalances ∅).setTable .notes ((db.table .notes).erase syncedKey)

inductive Backend where
  | memory
  | tables

namespace Backend

@[reducible] def Store : Backend → Type
  | memory => Ledger
  | tables => Database

instance : (k : Backend) → LedgerEdits k.Store
  | memory => inferInstanceAs (LedgerEdits Ledger)
  | tables => inferInstanceAs (LedgerEdits Database)

def opened : (k : Backend) → k.Store
  | memory => (∅ : Ledger)
  | tables => Database.opened

def withoutCoins : (k : Backend) → k.Store → k.Store
  | memory, l => Ledger.withoutCoins l
  | tables, db => Database.withoutCoins db

end Backend

namespace Backend

def Holds : (k : Backend) → Ledger → k.Store → Prop
  | memory, l, m => l = m
  | tables, l, db => Database.Mirrors l db

variable {k : Backend} {l : Ledger} {s t : k.Store}

theorem Holds.alike (h : k.Holds l s) : Alike l s := by
  cases k with
  | memory =>
    cases h
    constructor <;> intros <;> rfl
  | tables => exact Database.Mirrors.alike h

theorem Holds.unique (hs : k.Holds l s) (ht : k.Holds l t) : s = t := by
  cases k with
  | memory =>
    cases hs
    exact ht
  | tables => exact Database.Mirrors.unique hs ht

end Backend

/-- A read succeeds, and `P` holds of what it gives. -/
def Yields {α : Type} (read : Except StoreFault α) (P : α → Prop) : Prop :=
  ∃ a, read = .ok a ∧ P a

theorem Yields.of_ok {α : Type} {P : α → Prop} {a : α} (h : P a) : Yields (.ok a) P := ⟨a, rfl, h⟩

def HasFewTokens {σ : Type} [LedgerReads σ] (s : σ) : Prop :=
  ∃ tokens, LedgerReads.tokens s = .ok tokens ∧ tokens.length < Word.max.toNat

theorem Alike.hasFewTokens {σ τ : Type} [LedgerReads σ] [LedgerReads τ] {s : σ} {t : τ}
    (h : Alike s t) : HasFewTokens s ↔ HasFewTokens t := by
  unfold HasFewTokens
  rw [h.tokens]

namespace Ledger

theorem hasFewTokens_iff {l : Ledger} :
    HasFewTokens l ↔ l.tokens.size < Word.max.toNat := by
  have hlength : l.tokens.values.length = l.tokens.size := List.length_map _
  constructor
  · rintro ⟨tokens, htokens, hlt⟩
    cases htokens
    rwa [hlength] at hlt
  · intro hlt
    exact ⟨_, rfl, by rwa [hlength]⟩

end Ledger

namespace Database

open SortedMap

theorem Mirrors.withoutCoins {l : Ledger} {db : Database} (h : Mirrors l db) :
    Mirrors l.withoutCoins db.withoutCoins := by
  have hnone : (∅ : Table).entries = rows { l with coinBalances := ∅ } .coinBalances := rfl
  have herased : Mirrors { l with coinBalances := ∅ } (db.setTable .coinBalances ∅) :=
    h.write .coinBalances hnone (h.legible.congr rfl) rfl (by decide)
      fun u hu => by cases u <;> first | rfl | exact absurd rfl hu
  refine herased.withNotes (fun t => by cases t <;> rfl) (h.legible.congr rfl) fun key => ?_
  have hne : syncedKey ≠ cursorKey := by decide
  rw [get?_erase, h.notes]
  unfold noted
  by_cases hkey : key = syncedKey
  · rw [if_pos hkey, hkey, if_neg hne, if_pos rfl]
    rfl
  · rw [if_neg hkey, if_neg hkey, if_neg hkey]
    rfl

end Database

end CivicLedger
