import CivicLedger.Proofs.Chain.Inventory
import CivicLedger.Proofs.Chain.Steps
import CivicLedger.Proofs.Database.Indexes
import CivicLedger.Proofs.Node.Submission
import CivicLedger.Proofs.State.Transcript

/-!
# What a digest says of a store

Nodes compare digests to learn whether they have come to the same ledger. The bytes that a digest is
taken of are the transcript of an inventory, and one transcript is that of one inventory only. No
vote, balance or lock is in a store that blocks have been applied to without the record that it
belongs to, so that stores of one transcript hold the same records, whatever blocks they come from
and wherever they are kept.
-/

namespace CivicLedger

open Chain Program SortedMap

def Concur {α : Type} (a b : Except StoreFault α) : Prop := ∃ x, a = .ok x ∧ b = .ok x

theorem Concur.eq {α : Type} {a b : Except StoreFault α} (h : Concur a b) : a = b := by
  obtain ⟨x, rfl, rfl⟩ := h
  rfl

structure SameRecords {σ τ : Type} [LedgerReads σ] [LedgerReads τ] (s : σ) (t : τ) : Prop where
  delegates : Concur (LedgerReads.delegates s) (LedgerReads.delegates t)
  delegateVotesOf : ∀ v, Concur (LedgerReads.delegateVotesOf s v) (LedgerReads.delegateVotesOf t v)
  delegateVoters : ∀ d, Concur (LedgerReads.delegateVoters s d) (LedgerReads.delegateVoters t d)
  committees : Concur (LedgerReads.committees s) (LedgerReads.committees t)
  committeeVoteOf? : ∀ v,
    Concur (LedgerReads.committeeVoteOf? s v) (LedgerReads.committeeVoteOf? t v)
  committeeVoters : ∀ c, Concur (LedgerReads.committeeVoters s c) (LedgerReads.committeeVoters t c)
  bills : Concur (LedgerReads.bills s) (LedgerReads.bills t)
  ballot? : ∀ b v, Concur (LedgerReads.ballot? s b v) (LedgerReads.ballot? t b v)
  ballots : ∀ b, Concur (LedgerReads.ballots s b) (LedgerReads.ballots t b)
  settlement? : ∀ b, Concur (LedgerReads.settlement? s b) (LedgerReads.settlement? t b)
  names : Concur (LedgerReads.names s) (LedgerReads.names t)
  tokens : Concur (LedgerReads.tokens s) (LedgerReads.tokens t)
  tokenBalance : ∀ id h, Concur (LedgerReads.tokenBalance s id h) (LedgerReads.tokenBalance t id h)
  tokenHolders : ∀ id, Concur (LedgerReads.tokenHolders s id) (LedgerReads.tokenHolders t id)
  locksOf : ∀ id h, Concur (LedgerReads.locksOf s id h) (LedgerReads.locksOf t id h)
  locks : ∀ id, Concur (LedgerReads.locks s id) (LedgerReads.locks t id)

section

variable {σ τ : Type} [LedgerReads σ] [LedgerReads τ] {l l' : Ledger} {s : σ} {t : τ}

namespace Ledger

/-- What is read of the records alone is the same of both ledgers. -/
theorem concur_of_records {α : Type} {a b : Except StoreFault α} (h : l.records = l'.records)
    (f : Ledger → α) (hs : .ok (f l.records) = a) (ht : .ok (f l'.records) = b) : Concur a b :=
  ⟨f l'.records, h ▸ hs.symm, ht.symm⟩

theorem sameRecords (h : l.records = l'.records) (hs : Alike l s) (ht : Alike l' t) :
    SameRecords s t where
  delegates := concur_of_records h (·.delegates.values) hs.delegates ht.delegates
  delegateVotesOf v := concur_of_records h (fun m => pairedWith m.delegateVotes v)
    (hs.delegateVotesOf v) (ht.delegateVotesOf v)
  delegateVoters d := concur_of_records h (fun m => pairedWith m.delegateVoters d)
    (hs.delegateVoters d) (ht.delegateVoters d)
  committees := concur_of_records h (·.committees.values) hs.committees ht.committees
  committeeVoteOf? v :=
    concur_of_records h (·.committeeVotes.get? v) (hs.committeeVoteOf? v) (ht.committeeVoteOf? v)
  committeeVoters c := concur_of_records h (fun m => pairedWith m.committeeVoters c)
    (hs.committeeVoters c) (ht.committeeVoters c)
  bills := concur_of_records h (·.bills.values) hs.bills ht.bills
  ballot? b v := concur_of_records h (·.ballots.get? (b, v)) (hs.ballot? b v) (ht.ballot? b v)
  ballots b := concur_of_records h (·.ballots.within b) (hs.ballots b) (ht.ballots b)
  settlement? b := concur_of_records h (·.settlements.get? b) (hs.settlement? b) (ht.settlement? b)
  names := concur_of_records h (·.names.entries) hs.names ht.names
  tokens := concur_of_records h (·.tokens.values) hs.tokens ht.tokens
  tokenBalance id k :=
    concur_of_records h (·.available id k) (hs.tokenBalance id k) (ht.tokenBalance id k)
  tokenHolders id :=
    concur_of_records h (·.tokenBalances.within id) (hs.tokenHolders id) (ht.tokenHolders id)
  locksOf id k := concur_of_records h (·.locksOf id k) (hs.locksOf id k) (ht.locksOf id k)
  locks id := concur_of_records h (·.locks id) (hs.locks id) (ht.locks id)

end Ledger

theorem Alike.collect {σ τ : Type} [LedgerReads σ] [LedgerReads τ] {s : σ} {t : τ}
    (h : Alike s t) : Inventory.collect s = Inventory.collect t := by
  simp only [Inventory.collect, h.delegates, h.delegateVoters, h.committees, h.committeeVoters,
    h.bills, h.ballots, h.settlement?, h.names, h.tokens, h.tokenHolders, h.locks]

end

/-- A block comes to the same in a store as on the ledger that it holds. -/
theorem Backend.Holds.apply {k : Backend} {l : Ledger} {s : k.Store} (h : k.Holds l s)
    (fees : FeeSchedule) (a : Applicant) (b : Block) (coins : Coins) :
    (Chain.apply fees a b coins s).result = (Chain.apply fees a b coins l).result ∧
      (Chain.apply fees a b coins s).applicant = (Chain.apply fees a b coins l).applicant ∧
      k.Holds (Chain.apply fees a b coins l).store (Chain.apply fees a b coins s).store := by
  cases k with
  | memory =>
    cases h
    exact ⟨rfl, rfl, rfl⟩
  | tables =>
    obtain ⟨hresult, happlicant, hstore⟩ := Database.Mirrors.apply h fees a b coins
    exact ⟨hresult.symm, happlicant.symm, hstore⟩

namespace Chain

/-- Whatever nodes do to a ledger are calls on it, which keep its indexes. -/
theorem Kept.indexed {l : Ledger} (h : Kept ∅ l) : l.Indexed := by
  have hcalls : Handles Ledger.Indexed fun _ l => l.Indexed :=
    handles_of_preserves Ledger.preserves_call
  induction h with
  | start => exact Ledger.indexed_empty
  | @recorded u l _ _ hrecord ih =>
    have hedits : Preserves Ledger.Indexed (Node.recordEdits u : Edit Ledger Unit) :=
      (Preserves.forM fun e _ => Ledger.preserves_setCoinBalance e.1 e.2).bind fun _ =>
        Ledger.preserves_call (.setSynced u.block.point)
    have hafter := hedits l ih
    rwa [hrecord] at hafter
  | block fees a b coins _ ih => exact store_of_preserves Ledger.preserves_call ih fees a b coins
  | @entered b coins cursor _ l _ _ henter ih =>
    have hafter := hcalls.enter b coins cursor l ih
    rwa [henter] at hafter
  | @applied fees b tx _ l _ _ happly ih =>
    have hafter := hcalls.applyTx fees b tx l ih
    rwa [happly] at hafter

theorem Kept.coherent {l : Ledger} (h : Kept ∅ l) : l.Coherent := by
  obtain ⟨hsound, hlawful⟩ := h.invariant Ledger.invariant_lawful fun _ _ h => { h with }
  exact ⟨h.indexed, hlawful, hsound⟩

theorem exists_coherent {k : Backend} {s : k.Store} (h : Kept k.opened s) :
    ∃ l : Ledger, l.Coherent ∧ k.Holds l s := by
  cases k with
  | memory => exact ⟨s, h.coherent, rfl⟩
  | tables =>
    obtain ⟨l, hl, hm⟩ := exists_mirrors_of_kept h
    exact ⟨l, hl.coherent, hm⟩

end Chain

namespace Node

/-- The inventory of a store that blocks have been applied to can be taken, and stores whose
inventories have one transcript hold the same records. The lengths of the sections are taken to be
such as eight bytes can say. -/
theorem records_of_transcript {k k' : Backend} {s : k.Store} {t : k'.Store}
    (hs : Kept k.opened s) (ht : Kept k'.opened t) :
    ∃ v w, Inventory.collect s = .ok v ∧ Inventory.collect t = .ok w ∧
      (v.Sized → w.Sized → v.transcript = w.transcript → SameRecords s t) := by
  obtain ⟨l, hl, hholds⟩ := exists_coherent hs
  obtain ⟨l', hl', hholds'⟩ := exists_coherent ht
  refine ⟨l.inventory, l'.inventory, ?_, ?_, ?_⟩
  · rw [← hholds.alike.collect, l.collect_eq]
  · rw [← hholds'.alike.collect, l'.collect_eq]
  · intro hv hw heq
    have hrecords := hl.records_eq hl' (Inventory.eq_of_transcript hv hw heq)
    exact Ledger.sameRecords hrecords hholds.alike hholds'.alike

/-- A ledger in memory after one block, and tables after that block and one without transactions. -/
theorem records_of_transcript_after_issue :
    let s := (apply (.flat 0) fresh issue ∅ (∅ : Ledger)).store
    let first := apply (.flat 0) fresh issue ∅ Database.opened
    let t := (apply (.flat 0) first.applicant ⟨2, 20, []⟩ ∅ first.store).store
    s.cursor = some ⟨1, 2⟩ ∧ LedgerReads.cursor? t = .ok (some ⟨2, 0⟩) ∧ SameRecords s t := by
  intro s first t
  have hs : Kept (∅ : Ledger) s := .block (.flat 0) fresh issue ∅ .start
  have ht : Kept Database.opened t :=
    .block (.flat 0) first.applicant ⟨2, 20, []⟩ ∅ (.block (.flat 0) fresh issue ∅ .start)
  have hv : Inventory.collect s = .ok s.inventory := s.collect_eq
  have hw : Inventory.collect t = .ok s.inventory := by decide +kernel
  have hsized : s.inventory.Sized := by decide +kernel
  obtain ⟨v, w, hv', hw', hsame⟩ := @records_of_transcript .memory .tables s t hs ht
  cases hv.symm.trans hv'
  cases hw.symm.trans hw'
  exact ⟨by decide +kernel, by decide +kernel, hsame hsized hsized rfl⟩

end Node

end CivicLedger
