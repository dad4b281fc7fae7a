import CivicLedger.Proofs.Chain.Runs
import CivicLedger.Proofs.Database.Batches

/-!
# Blocks as calls on a store

All that a block does to a store are calls on it, some of which belong together. What holds of each
call, and of a group that is dropped where it fails, holds of the whole block: every fault of a block
that the check let pass comes from the store, and what no call breaks no block breaks.
-/

namespace CivicLedger.Chain

open Program LedgerReads LedgerEdits

variable {σ : Type} [LedgerEdits σ] {I : σ → Prop} {E : ChainFault → σ → Prop}

/-- What the parts of a block do: from a state with `I` they end in one with `I`, or fail with
`E`. -/
structure Handles (I : σ → Prop) (E : ChainFault → σ → Prop) : Prop where
  consistent : ∀ c : Call, Ends I E (Step.consistent (c.run : Edit σ Unit))
  stored : ∀ c : Call, Ends I E (Step.stored (c.run : Edit σ Unit))
  inconsistent : ∀ cause s, I s → E (.inconsistent cause) s
  storage : ∀ fault s, I s → E (.storage fault) s
  /-- A group of calls that fails leaves what was there before. -/
  atomic : ∀ fault s s', I s → E fault s' → E fault s

namespace Handles

theorem read {α : Type} (h : Handles I E) (g : σ → Except StoreFault α) :
    Ends I E (Step.read g) := by
  intro s hs
  cases hg : g s with
  | ok a =>
    rw [read_of_ok hg]
    exact hs
  | error fault =>
    rw [read_of_error hg]
    exact h.storage fault s hs

theorem throw {α : Type} (h : Handles I E) (cause : Inconsistency) :
    Ends I E (throw (.inconsistent cause) : Step σ α) := Ends.throw (h.inconsistent cause)

theorem atomically {α : Type} {p : Step σ α} (h : Handles I E) (hp : Ends I E p) :
    Ends I E (Step.atomically p) := by
  intro s hs
  have hrun := hp s hs
  unfold Step.atomically
  cases hps : p s with
  | ok a s' =>
    rw [hps] at hrun
    exact hrun
  | error fault s' =>
    rw [hps] at hrun
    exact h.atomic fault s s' hs hrun

theorem unlock (h : Handles I E) (d : TokenDebit) (available : UInt64) (l : TokenLock) :
    Ends I E (unlock d available l : Step σ _) := by
  refine (h.consistent (.removeLock l.token l.holder l.expiry)).bind fun _ => ?_
  cases Word.checkedAdd available l.amount with
  | some sum => exact .pure _
  | none => exact h.throw _

theorem withdraw (h : Handles I E) (d : TokenDebit) : Ends I E (withdraw d : Step σ _) := by
  refine (h.read _).bind fun before => ?_
  refine (Ends.foldlM (fun a l _ => h.unlock d a l) before).bind fun available => ?_
  cases Word.checkedSub available d.amount with
  | some remaining => exact h.consistent (.setTokenBalance d.token d.source remaining)
  | none => exact h.throw _

theorem credit (h : Handles I E) (d : TokenDebit) : Ends I E (credit d : Step σ _) := by
  refine (h.read _).bind fun balance => ?_
  cases Word.checkedAdd balance d.amount with
  | some sum => exact h.consistent (.setTokenBalance d.token d.target sum)
  | none => exact h.throw _

theorem perform (h : Handles I E) (effect : Effect) : Ends I E (perform effect : Step σ _) := by
  cases effect with
  | registerDelegate delegate => exact h.consistent (.insertDelegate delegate)
  | voteDelegates voter delegates =>
    exact Ends.forM fun delegate _ => h.consistent (.addDelegateVote voter delegate)
  | revokeDelegates voter delegates =>
    exact Ends.forM fun delegate _ => h.consistent (.removeDelegateVote voter delegate)
  | registerCommittee committee => exact h.consistent (.insertCommittee committee)
  | voteCommittee voter committee => exact h.consistent (.putCommitteeVote voter committee)
  | revokeCommittee voter committee => exact h.consistent (.removeCommitteeVote voter committee)
  | submitBill bill => exact h.consistent (.insertBill bill)
  | voteBill bill voter choice => exact h.consistent (.putBallot bill voter choice)
  | registerName address name => exact h.consistent (.insertName address name)
  | createToken token =>
    refine (h.consistent (.insertToken token)).bind fun _ => ?_
    exact h.consistent (.setTokenBalance token.id token.owner token.total)
  | transferToken d => exact (h.withdraw d).bind fun _ => h.credit d
  | lockToken d expiry =>
    refine (h.withdraw d).bind fun _ => ?_
    exact h.consistent (.addLock ⟨d.token, d.target, expiry, d.amount⟩)

theorem settleBill (h : Handles I E) (b : Block) (coins : Coins) (id : BillId) :
    Ends I E (settleBill b coins id : Step σ _) := by
  refine (h.read _).bind fun bill => ?_
  cases bill with
  | none => exact h.throw _
  | some bill =>
    refine (h.read _).bind fun votes => ?_
    exact (h.consistent (.settle id _ _)).bind fun _ => .pure _

theorem enter (h : Handles I E) (b : Block) (coins : Coins) (cursor : Option Cursor) :
    Ends I E (enter b coins cursor : Step σ _) := by
  refine h.atomically ((h.read _).bind fun due => ?_)
  refine (Ends.mapM fun id _ => h.settleBill b coins id).bind fun settled => ?_
  split
  · exact (h.stored (.setCursor ⟨b.height, 0⟩)).bind fun _ => .pure _
  · exact .pure _

theorem applyOperation (h : Handles I E) (fees : FeeSchedule) (b : Block) (tx : Tx)
    (op : Operation) : Ends I E (applyOperation fees b tx op : Step σ _) := by
  unfold Chain.applyOperation
  dsimp only
  split
  · exact .pure _
  · refine Ends.bind (fun _ hs => hs) fun s => ?_
    cases assess s b.point tx.sender op with
    | ok effect => exact (h.perform effect).bind fun _ => .pure _
    | error e =>
      cases e with
      | refused r => exact .pure _
      | store fault => exact .throw (h.storage fault)

theorem applyTx (h : Handles I E) (fees : FeeSchedule) (b : Block) (tx : Tx) :
    Ends I E (applyTx fees b tx : Step σ _) := by
  have hprocess : Ends I E (process fees b tx : Step σ _) := by
    unfold process
    cases Payload.decode tx.payload with
    | error fault => exact .pure _
    | ok op =>
      cases op with
      | unrecognized opcode body => exact .pure _
      | _ => exact h.applyOperation fees b tx _
  rw [applyTx_eq]
  refine h.atomically (hprocess.bind fun outcome => ?_)
  exact (h.stored (.setCursor ⟨b.height, indexAfter tx.index⟩)).bind fun _ => .pure _

theorem applyChecked (h : Handles I E) (fees : FeeSchedule) (b : Block) (coins : Coins) :
    Ends I E (applyChecked fees b coins : Step σ _) :=
  ends_applyChecked (h.read _) h.enter h.applyTx fees b coins

end Handles

/-- The faults of a block that the check let pass. -/
inductive FromStore : ChainFault → Prop where
  | inconsistent (cause : Inconsistency) : FromStore (.inconsistent cause)
  | storage (fault : StoreFault) : FromStore (.storage fault)

theorem handles_fromStore : Handles (fun _ : σ => True) (fun fault _ => FromStore fault) where
  consistent c := by
    intro s _
    unfold Step.consistent
    cases c.run s with
    | ok a s' => trivial
    | error fault s' =>
      cases fault with
      | notFound entry => exact .inconsistent _
      | duplicate entry => exact .inconsistent _
      | _ => exact .storage _
  stored c := by
    intro s _
    unfold Step.stored
    cases c.run s with
    | ok a s' => trivial
    | error fault s' => exact .storage fault
  inconsistent cause _ _ := .inconsistent cause
  storage fault _ _ := .storage fault
  atomic _ _ _ _ h := h

theorem handles_of_preserves (hI : ∀ c : Call, Preserves I (c.run : Edit σ Unit)) :
    Handles I fun _ s => I s where
  consistent c := by
    intro s hs
    have hrun := hI c s hs
    unfold Step.consistent
    cases hc : c.run s with
    | ok a s' => rw [hc] at hrun; exact hrun
    | error fault s' => rw [hc] at hrun; exact hrun
  stored c := by
    intro s hs
    have hrun := hI c s hs
    unfold Step.stored
    cases hc : c.run s with
    | ok a s' => rw [hc] at hrun; exact hrun
    | error fault s' => rw [hc] at hrun; exact hrun
  inconsistent _ _ hs := hs
  storage _ _ hs := hs
  atomic _ _ _ hs _ := hs

theorem store_of_preserves (hI : ∀ c : Call, Preserves I (c.run : Edit σ Unit)) {s : σ} (hs : I s)
    (fees : FeeSchedule) (a : Applicant) (b : Block) (coins : Coins) :
    I (apply fees a b coins s).store := by
  rcases apply_ends (a := a) ((handles_of_preserves hI).applyChecked fees b coins) hs with
    ⟨fault, _, happly⟩ | ⟨_, ⟨report, s', happly, hs'⟩ | ⟨fault, s', happly, hs'⟩⟩
  · rw [happly]
    exact hs
  · rw [happly]
    exact hs'
  · rw [happly]
    exact hs'

end CivicLedger.Chain
