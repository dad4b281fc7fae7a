import CivicLedger.Proofs.Chain.Steps
import CivicLedger.Proofs.Node.Recovery

/-!
# Nodes that halt

A block that the check lets pass fails for an inconsistency or for the storage. After an
inconsistency the node stops and takes no block any more, so that nothing behind the failed
transaction is ever applied. After a fault of the storage it goes on: the failed block is dropped,
and the next one is applied from where the store stands.
-/

namespace CivicLedger

open Program

namespace Node

open Chain

section

variable {σ : Type} [LedgerEdits σ] {fees : FeeSchedule} {n m : Node σ} {u : Update}
  {fault : ChainFault}

/-- Recording balances leaves the applicant as it is, or fails for the store. -/
theorem recordBalances_cases (n : Node σ) (u : Update) :
    (∃ m, n.recordBalances u = .ok m ∧ m.applicant = n.applicant) ∨
      ∃ fault, n.recordBalances u = .error (.store fault) := by
  unfold recordBalances
  cases LedgerReads.synced? n.store with
  | error fault => exact .inr ⟨fault, rfl⟩
  | ok synced =>
    cases synced with
    | none =>
      cases recordEdits u n.store with
      | ok _ s => exact .inl ⟨_, rfl, rfl⟩
      | error fault s => exact .inr ⟨fault, rfl⟩
    | some point =>
      by_cases hlater : u.block.height < point.height
      · exact .inl ⟨n, if_pos (decide_eq_true hlater), rfl⟩
      · have hnot : ¬ decide (u.block.height < point.height) = true := by simpa using hlater
        dsimp only [readStore, bind, Except.bind]
        rw [if_neg hnot]
        cases recordEdits u n.store with
        | ok _ s => exact .inl ⟨_, rfl, rfl⟩
        | error fault s => exact .inr ⟨fault, rfl⟩

/-- A block that fails after its check fails from the store, and only an inconsistency halts the
applicant. -/
theorem applicant_of_failed (hcheck : check n.applicant u.block = .ok ())
    (hfailed : (deliver fees n u).result = .error (.chain fault)) :
    FromStore fault ∧ (deliver fees n u).node.applicant = after u.block (.error fault) := by
  unfold deliver at hfailed ⊢
  rw [hcheck] at hfailed ⊢
  rcases recordBalances_cases n u with ⟨m, hrecord, hsame⟩ | ⟨e, hrecord⟩
  · rw [hrecord] at hfailed ⊢
    dsimp only at hfailed ⊢
    have hends := handles_fromStore.applyChecked (σ := σ) fees u.block m.sheet.coins
    rcases apply_ends (a := m.applicant) hends (s := m.store) trivial with
      ⟨_, hrefused, _⟩ | ⟨_, ⟨report, s', happly, _⟩ | ⟨_, s', happly, hfrom⟩⟩
    · rw [hsame, hcheck] at hrefused
      cases hrefused
    · rw [happly] at hfailed
      cases hfailed
    · rw [happly] at hfailed ⊢
      cases hfailed
      exact ⟨hfrom, rfl⟩
  · rw [hrecord] at hfailed
    cases hfailed

theorem deliver_of_halted (fees : FeeSchedule) (hhalted : n.applicant.halted = true) (u : Update) :
    deliver fees n u = ⟨.error (.chain .halted), n, Notice.ofFault u.block.height .halted⟩ := by
  refine deliver_of_check_error fees ?_
  unfold check
  rw [if_pos hhalted]
  rfl

end

/-- Whatever the store of a node holds, a block that fails after its check either stops the node, and
then no later update changes anything, or is dropped for a fault of the storage, and then the next
update is taken from where the failed one left the store. -/
theorem stops_at_inconsistency (k : Backend) {fees : FeeSchedule} {before : List Update}
    {n m : Node k.Store} {u : Update} {fault : ChainFault}
    (hbefore : follow fees before n = ⟨none, m⟩)
    (hcheck : check m.applicant u.block = .ok ())
    (hfailed : (deliver fees m u).result = .error (.chain fault)) :
    (∃ cause, fault = .inconsistent cause ∧
        (∀ rest, follow fees (before ++ u :: rest) n =
          ⟨some (.chain fault), (deliver fees m u).node⟩) ∧
        ∀ later, deliver fees (deliver fees m u).node later =
          ⟨.error (.chain .halted), (deliver fees m u).node,
            Notice.ofFault later.block.height .halted⟩) ∨
      ∃ cause, fault = .storage cause ∧
        (deliver fees m u).node.applicant = ⟨some u.block.height, false⟩ ∧
        ∀ rest, follow fees (before ++ u :: rest) n = follow fees rest (deliver fees m u).node := by
  have hgoing : (follow fees before n).fault = none := by rw [hbefore]
  have hnext (rest : List Update) : follow fees (before ++ u :: rest) n =
      if isDropped (.chain fault) then follow fees rest (deliver fees m u).node
      else ⟨some (.chain fault), (deliver fees m u).node⟩ := by
    rw [follow_append hgoing, hbefore, follow_cons, hfailed]
  obtain ⟨hfrom, happlicant⟩ := applicant_of_failed hcheck hfailed
  cases hfrom with
  | inconsistent cause =>
    refine .inl ⟨cause, rfl, hnext, ?_⟩
    exact deliver_of_halted fees (by rw [happlicant]; rfl)
  | storage cause => exact .inr ⟨cause, rfl, happlicant, hnext⟩

def strayBill : Ledger := { (∅ : Ledger) with dueBills := SortedSet.add ∅ (0, .ofTitle "Budget") }

theorem stops_at_stray_bill :
    let n : Node Ledger := start strayBill
    let u : Update := ⟨⟨1, 10, []⟩, []⟩
    let fault : ChainFault := .inconsistent (.dueWithoutRecord (.ofTitle "Budget"))
    check n.applicant u.block = .ok () ∧
      (deliver (.flat 0) n u).result = .error (.chain fault) ∧
      ∀ rest, follow (.flat 0) (u :: rest) n =
        ⟨some (.chain fault), (deliver (.flat 0) n u).node⟩ := by
  intro n u fault
  have hcheck : check n.applicant u.block = .ok () := rfl
  have hfailed : (deliver (.flat 0) n u).result = .error (.chain fault) := by
    decide +kernel
  have hbefore : follow (.flat 0) [] n = ⟨none, n⟩ := rfl
  refine ⟨hcheck, hfailed, ?_⟩
  rcases stops_at_inconsistency .memory hbefore hcheck hfailed with
    ⟨_, _, hstops, _⟩ | ⟨_, hstorage, _⟩
  · exact hstops
  · exact absurd hstorage nofun

/-- A ledger with a lock of the largest amount, which leaves no room for what is locked beside it. -/
def fullLock : Ledger :=
  let owner : KeyId := ⟨.fill 20 1⟩
  { (∅ : Ledger) with
    tokens := (∅ : SortedMap TokenId Token).insert ⟨1⟩
      ⟨⟨1⟩, "GOLD", "Gold", owner, ⟨.fill 20 7⟩, 1000, 2, 1⟩
    tokenBalances := (∅ : SortedMap (TokenId × KeyId) UInt64).insert (⟨1⟩, owner) 50
    tokenLocks := (∅ : SortedMap ((TokenId × KeyId) × Height) UInt64).insert
      ((⟨1⟩, ⟨.fill 20 2⟩), 10) Word.max }

/-- Two blocks in which somebody registers the same name, the first one behind a lock. -/
def rivals : List Update :=
  let payload (op : Operation) : Bytes := (Payload.bytesOf op).1 :: (Payload.bytesOf op).2
  [⟨⟨1, 10, [⟨0, payload (.lockToken ⟨1⟩ ⟨.fill 20 2⟩ 5 10 ""), ⟨.fill 20 1⟩, 0⟩,
      ⟨1, payload (.registerName "bob"), ⟨.fill 20 2⟩, 0⟩]⟩, []⟩,
    ⟨⟨2, 20, [⟨0, payload (.registerName "bob"), ⟨.fill 20 3⟩, 0⟩]⟩, []⟩]

/-- The first block fails for the storage at its first transaction. The second one is applied all
the same: the cursor passes over the rest of the first, and its name goes to somebody else. -/
theorem passes_over_failed_block :
    let n : Node Ledger := start fullLock
    check n.applicant rivals[0].block = .ok () ∧
      (deliver (.flat 0) n rivals[0]).result =
        .error (.chain (.storage (.corrupt (.lockOverflow ⟨.fill 20 2⟩)))) ∧
      ((deliver (.flat 0) n rivals[0]).node.store.cursor,
        (follow (.flat 0) rivals n).node.store.cursor) = (some ⟨1, 0⟩, some ⟨2, 1⟩) ∧
      (follow (.flat 0) rivals n).fault = none ∧
      (follow (.flat 0) rivals n).node.store.namedKeys.get? "bob" = some ⟨.fill 20 3⟩ := by
  decide +kernel

end Node

end CivicLedger
