import CivicLedger.Proofs.Database.Edits

/-!
# Batches of calls on both stores

A batch is a list of calls on a copy of the store that is committed or dropped as a whole. A ledger
in memory and a database that both start empty give the same results, call by call, and answer every
read alike after each.
-/

namespace CivicLedger

inductive Call where
  | insertDelegate (d : Delegate)
  | addDelegateVote (voter delegate : KeyId)
  | removeDelegateVote (voter delegate : KeyId)
  | insertCommittee (c : Committee)
  | putCommitteeVote (voter committee : KeyId)
  | removeCommitteeVote (voter committee : KeyId)
  | insertBill (b : Bill)
  | putBallot (bill : BillId) (voter : KeyId) (choice : UInt8)
  | settle (bill : BillId) (s : Settlement) (weights : List (KeyId × UInt64))
  | insertName (address : KeyId) (name : String)
  | insertToken (t : Token)
  | setTokenBalance (token : TokenId) (holder : KeyId) (amount : UInt64)
  | addLock (k : TokenLock)
  | removeLock (token : TokenId) (holder : KeyId) (expiry : Height)
  | setCoinBalance (address : KeyId) (amount : UInt64)
  | setSynced (p : ChainPoint)
  | setCursor (c : Cursor)

namespace Call

variable {σ : Type} [LedgerEdits σ]

def run : Call → Edit σ Unit
  | insertDelegate d => LedgerEdits.insertDelegate d
  | addDelegateVote voter delegate => LedgerEdits.addDelegateVote voter delegate
  | removeDelegateVote voter delegate => LedgerEdits.removeDelegateVote voter delegate
  | insertCommittee c => LedgerEdits.insertCommittee c
  | putCommitteeVote voter committee => LedgerEdits.putCommitteeVote voter committee
  | removeCommitteeVote voter committee => LedgerEdits.removeCommitteeVote voter committee
  | insertBill b => LedgerEdits.insertBill b
  | putBallot bill voter choice => LedgerEdits.putBallot bill voter choice
  | settle bill s weights => LedgerEdits.settle bill s weights
  | insertName address name => LedgerEdits.insertName address name
  | insertToken t => LedgerEdits.insertToken t
  | setTokenBalance token holder amount => LedgerEdits.setTokenBalance token holder amount
  | addLock k => LedgerEdits.addLock k
  | removeLock token holder expiry => LedgerEdits.removeLock token holder expiry
  | setCoinBalance address amount => LedgerEdits.setCoinBalance address amount
  | setSynced p => LedgerEdits.setSynced p
  | setCursor c => LedgerEdits.setCursor c

/-- A settlement that fails may leave a part of itself behind. -/
def spoils : Call → Bool
  | settle .. => true
  | _ => false

/-- Names have from 1 to 511 bytes and symbols at most 491, so that they are keys of a table. The
other texts and lists only need a length that a word can hold. -/
def Fits : Call → Prop
  | insertDelegate d => d.name ≠ "" ∧ (utf8 d.name).length ≤ 511
  | insertCommittee c => c.name ≠ "" ∧ (utf8 c.name).length ≤ 511 ∧ FitsText c.url
  | insertBill b => b.Fits
  | settle _ s _ => s.Fits
  | insertName _ name => name ≠ "" ∧ (utf8 name).length ≤ 511
  | insertToken t => (utf8 t.symbol).length ≤ 491 ∧ FitsText t.name
  | _ => True

end Call

inductive Action where
  | call (c : Call)
  | commit
  | drop

def Action.Fits : Action → Prop
  | call c => c.Fits
  | commit | drop => True

structure Workspace (σ : Type) where
  stored : σ
  working : σ

namespace Workspace

variable {σ : Type} [LedgerEdits σ]

def settled (s : σ) : Workspace σ := ⟨s, s⟩

/-- The result of an action and what is left after it. A batch is dropped where a settlement
fails. -/
def step (w : Workspace σ) : Action → Except StoreFault Unit × Workspace σ
  | .call c =>
    match c.run w.working with
    | .ok _ s => (.ok (), { w with working := s })
    | .error fault s =>
      (.error fault, if c.spoils then settled w.stored else { w with working := s })
  | .commit => (.ok (), settled w.working)
  | .drop => (.ok (), settled w.stored)

def trace (w : Workspace σ) : List Action → List (Except StoreFault Unit × Workspace σ)
  | [] => []
  | a :: rest => w.step a :: trace (w.step a).2 rest

end Workspace

namespace Database

open Program

theorem fitsKey_name {s : String} (hne : s ≠ "") (h : (utf8 s).length ≤ 511) :
    FitsKey (utf8 s) := ⟨utf8_ne_nil hne, h⟩

theorem fitsText_of_le {s : String} {n : Nat} (h : (utf8 s).length ≤ n) (hn : n < UInt64.size) :
    FitsText s := Nat.lt_of_le_of_lt h hn

theorem fitsKey_symbol (owner : KeyId) {s : String} (h : (utf8 s).length ≤ 491) :
    FitsKey (Key.ofKey owner ++ utf8 s) := by
  constructor
  · intro hnil
    exact ofKey_ne_nil owner (List.append_eq_nil_iff.mp hnil).1
  · have hlength := length_ofKey owner
    rw [List.length_append]
    omega

/-- Every call does the same on both stores, except for what a failed settlement leaves. -/
theorem agree_call {c : Call} (h : c.Fits) :
    Agree (fun l db => c.spoils = false → Mirrors l db) (c.run : Edit Ledger Unit)
      (c.run : Edit Database Unit) := by
  have keep {p : Edit Ledger Unit} {q : Edit Database Unit} (hpq : Agree Mirrors p q) :
      Agree (fun l db => c.spoils = false → Mirrors l db) p q :=
    hpq.mono fun _ _ hm _ => hm
  cases c with
  | insertDelegate d =>
    exact keep (agree_insertDelegate (fitsKey_name h.1 h.2) (fitsText_of_le h.2 (by decide)))
  | addDelegateVote voter delegate => exact keep (agree_addDelegateVote voter delegate)
  | removeDelegateVote voter delegate => exact keep (agree_removeDelegateVote voter delegate)
  | insertCommittee c =>
    exact keep (agree_insertCommittee (fitsKey_name h.1 h.2.1)
      ⟨fitsText_of_le h.2.1 (by decide), h.2.2⟩)
  | putCommitteeVote voter committee => exact keep (agree_putCommitteeVote voter committee)
  | removeCommitteeVote voter committee => exact keep (agree_removeCommitteeVote voter committee)
  | insertBill b => exact keep (agree_insertBill h)
  | putBallot bill voter choice => exact keep (agree_putBallot bill voter choice)
  | settle bill s weights =>
    refine (agree_settle bill h weights).mono fun _ _ _ hspoils => ?_
    cases hspoils
  | insertName address name => exact keep (agree_insertName address (fitsKey_name h.1 h.2))
  | insertToken t =>
    exact keep (agree_insertToken (fitsKey_symbol t.owner h.1)
      ⟨fitsText_of_le h.1 (by decide), h.2⟩)
  | setTokenBalance token holder amount => exact keep (agree_setTokenBalance token holder amount)
  | addLock k => exact keep (agree_addLock k)
  | removeLock token holder expiry => exact keep (agree_removeLock token holder expiry)
  | setCoinBalance address amount => exact keep (agree_setCoinBalance address amount)
  | setSynced p => exact keep (agree_setSynced p)
  | setCursor c => exact keep (agree_setCursor c)

theorem agree_call_of_calm {c : Call} (h : c.Fits) (hcalm : c.spoils = false) :
    Agree Mirrors (c.run : Edit Ledger Unit) (c.run : Edit Database Unit) :=
  (agree_call h).mono fun _ _ hm => hm hcalm

structure Holds (w : Workspace Ledger) (v : Workspace Database) : Prop where
  stored : Mirrors w.stored v.stored
  working : Mirrors w.working v.working

theorem Holds.step {w : Workspace Ledger} {v : Workspace Database} (h : Holds w v) {a : Action}
    (ha : a.Fits) : (w.step a).1 = (v.step a).1 ∧ Holds (w.step a).2 (v.step a).2 := by
  cases a with
  | commit => exact ⟨rfl, h.working, h.working⟩
  | drop => exact ⟨rfl, h.stored, h.stored⟩
  | call c =>
    have hcall := agree_call ha _ _ h.working
    simp only [Workspace.step]
    generalize (c.run w.working : EStateM.Result StoreFault Ledger Unit) = r,
      (c.run v.working : EStateM.Result StoreFault Database Unit) = r' at hcall
    cases hcall with
    | ok hm => exact ⟨rfl, h.stored, hm⟩
    | error hm =>
      refine ⟨rfl, ?_⟩
      by_cases hspoils : c.spoils = true
      · simp only [if_pos hspoils]
        exact ⟨h.stored, h.stored⟩
      · simp only [if_neg hspoils]
        exact ⟨h.stored, hm (Bool.eq_false_iff.mpr hspoils)⟩

theorem Holds.trace {w : Workspace Ledger} {v : Workspace Database} (h : Holds w v)
    {actions : List Action} (hfits : ∀ a ∈ actions, a.Fits) :
    (w.trace actions).map Prod.fst = (v.trace actions).map Prod.fst ∧
      ∀ m ∈ (w.trace actions).zip (v.trace actions), Holds m.1.2 m.2.2 := by
  induction actions generalizing w v with
  | nil =>
    refine ⟨rfl, ?_⟩
    intro m hm
    cases hm
  | cons a rest ih =>
    obtain ⟨hsame, hstep⟩ := h.step (hfits a List.mem_cons_self)
    obtain ⟨hresults, hrest⟩ := ih hstep fun b hb => hfits b (List.mem_cons_of_mem a hb)
    constructor
    · change (w.step a).1 :: _ = (v.step a).1 :: _
      rw [hsame, hresults]
    · intro m hm
      rcases List.mem_cons.mp hm with rfl | hm
      · exact hstep
      · exact hrest m hm

def opened : Database :=
  empty.setTable .notes ((∅ : Table).insert (utf8 schemaKey) (Bytes.ofUInt32LE currentSchema))

theorem open?_empty : open? empty = .ok opened := rfl

theorem mirrors_opened : Mirrors ∅ opened := by
  refine { tables := ?_, notes := ?_, legible := ?_ }
  · intro t ht
    unfold opened
    rw [table_setTable_ne empty _ ht, table_empty]
    cases t <;> rfl
  · intro key
    have hcursor : utf8 schemaKey ≠ cursorKey := by decide
    have hsynced : utf8 schemaKey ≠ syncedKey := by decide
    unfold opened
    rw [table_setTable_self, SortedMap.get?_insert]
    unfold noted
    by_cases hkey : key = utf8 schemaKey
    · rw [if_pos hkey, if_pos hkey, hkey, if_neg hcursor, if_neg hsynced]
    · rw [if_neg hkey, if_neg hkey]
      split
      · rfl
      · split <;> rfl
  · constructor <;> intro _ _ hget <;> cases hget

/-- From nothing, a ledger and a database give the same result for each call of any batches, and
after each of them what is stored and what the open batch holds are read alike on both. -/
theorem batches_agree (actions : List Action) (hfits : ∀ a ∈ actions, a.Fits) :
    ∃ db, open? empty = .ok db ∧
      ((Workspace.settled (∅ : Ledger)).trace actions).map Prod.fst =
        ((Workspace.settled db).trace actions).map Prod.fst ∧
      ∀ m ∈ ((Workspace.settled (∅ : Ledger)).trace actions).zip
          ((Workspace.settled db).trace actions),
        Alike m.1.2.stored m.2.2.stored ∧ Alike m.1.2.working m.2.2.working := by
  have hstart : Holds (Workspace.settled ∅) (Workspace.settled opened) :=
    ⟨mirrors_opened, mirrors_opened⟩
  obtain ⟨hresults, hholds⟩ := hstart.trace hfits
  refine ⟨opened, open?_empty, hresults, ?_⟩
  intro m hm
  have h := hholds m hm
  exact ⟨h.stored.alike, h.working.alike⟩

theorem batches_agree_on_a_name_taken :
    let actions : List Action :=
      [.call (.insertName ⟨.fill 20 1⟩ "ada"), .commit, .call (.insertName ⟨.fill 20 2⟩ "ada"),
        .drop]
    (∀ a ∈ actions, a.Fits) ∧ ∃ db, open? empty = .ok db ∧
      ((Workspace.settled (∅ : Ledger)).trace actions).map Prod.fst =
        ((Workspace.settled db).trace actions).map Prod.fst ∧
      ∀ m ∈ ((Workspace.settled (∅ : Ledger)).trace actions).zip
          ((Workspace.settled db).trace actions),
        Alike m.1.2.stored m.2.2.stored ∧ Alike m.1.2.working m.2.2.working := by
  intro actions
  have hfits : ∀ a ∈ actions, a.Fits := by
    intro a ha
    have hname : "ada" ≠ "" ∧ (utf8 "ada").length ≤ 511 := by decide
    simp only [actions, List.mem_cons, List.not_mem_nil, or_false] at ha
    rcases ha with rfl | rfl | rfl | rfl
    · exact hname
    · trivial
    · exact hname
    · trivial
  exact ⟨hfits, batches_agree actions hfits⟩

end Database

end CivicLedger
