import CivicLedger.Proofs.Node.Submission

/-!
# What does not depend on the cursor

The cursor says how far blocks have been applied, and nothing that a block does to the records
depends on it: ledgers that differ in the cursor alone settle the same bills, come to the same
outcomes and fail with the same faults. Only which transactions are passed over is up to the cursor,
and none is while it stands below the block.
-/

namespace CivicLedger

namespace Program

variable {ε σ α β : Type} {f : σ → σ}

def inState (f : σ → σ) : EStateM.Result ε σ α → EStateM.Result ε σ α
  | .ok a s => .ok a (f s)
  | .error e s => .error e (f s)

/-- A program that neither reads nor writes what `f` changes. -/
def Spares (f : σ → σ) (p : EStateM ε σ α) : Prop := ∀ s, p (f s) = inState f (p s)

theorem inState_ite {p : Prop} [Decidable p] (r r' : EStateM.Result ε σ α) :
    inState f (if p then r else r') = if p then inState f r else inState f r' := apply_ite _ _ _ _

namespace Spares

theorem pure (a : α) : Spares f (pure a : EStateM ε σ α) := fun _ => rfl

theorem throw (e : ε) : Spares f (throw e : EStateM ε σ α) := fun _ => rfl

/-- From an equation for what the program does. -/
theorem of_eq {p : EStateM ε σ α} {g : σ → EStateM.Result ε σ α} (hp : ∀ s, p s = g s)
    (hg : ∀ s, g (f s) = inState f (g s)) : Spares f p := by
  intro s
  rw [hp, hp, hg]

theorem bind {p : EStateM ε σ α} {g : α → EStateM ε σ β} (hp : Spares f p)
    (hg : ∀ a, Spares f (g a)) : Spares f (p >>= g) := by
  intro s
  rw [bind_apply, bind_apply, hp s]
  cases p s with
  | ok a t => exact hg a t
  | error e t => rfl

/-- A program that takes the whole state, but nothing of it that `f` changes. -/
theorem get_bind {g : σ → EStateM ε σ α} (hsame : ∀ s, g (f s) = g s) (hg : ∀ s, Spares f (g s)) :
    Spares f (get >>= g) := by
  intro s
  change g (f s) (f s) = inState f (g s s)
  rw [hsame]
  exact hg s s

theorem forM {g : β → EStateM ε σ PUnit} {xs : List β} (hg : ∀ x ∈ xs, Spares f (g x)) :
    Spares f (xs.forM g) := by
  induction xs with
  | nil => exact pure _
  | cons x xs ih =>
    have hxs := ih fun y hy => hg y (List.mem_cons_of_mem x hy)
    exact bind (hg x List.mem_cons_self) fun _ => hxs

theorem mapM {g : β → EStateM ε σ α} {xs : List β} (hg : ∀ x ∈ xs, Spares f (g x)) :
    Spares f (xs.mapM g) := by
  induction xs with
  | nil => exact pure _
  | cons x xs ih =>
    have hxs := ih fun y hy => hg y (List.mem_cons_of_mem x hy)
    rw [List.mapM_cons]
    exact bind (hg x List.mem_cons_self) fun _ => bind hxs fun _ => pure _

theorem foldlM {g : α → β → EStateM ε σ α} {xs : List β} (hg : ∀ a, ∀ x ∈ xs, Spares f (g a x))
    (a : α) : Spares f (xs.foldlM g a) := by
  induction xs generalizing a with
  | nil => exact pure _
  | cons x xs ih =>
    have hxs := ih fun a y hy => hg a y (List.mem_cons_of_mem x hy)
    rw [List.foldlM_cons]
    exact bind (hg a x List.mem_cons_self) hxs

theorem consistent {e : Edit σ α} (he : Spares f e) : Spares f (Step.consistent e) := by
  intro s
  unfold Step.consistent
  rw [he s]
  cases e s <;> rfl

theorem read {g : σ → Except StoreFault α} (hg : ∀ s, g (f s) = g s) :
    Spares f (Step.read g) := by
  intro s
  unfold Step.read Step.stored Edit.read
  rw [hg]
  cases g s <;> rfl

end Spares

end Program

open Program Chain

namespace Ledger

def atCursor (l : Ledger) (c : Option Cursor) : Ledger := { l with cursor := c }

variable {c : Option Cursor}

theorem spares_ensureAbsent (entry : Entry) (there : Bool) :
    Spares (atCursor · c) (ensureAbsent entry there) := by
  cases there with
  | true => exact .throw _
  | false => exact .pure _

theorem spares_settle (id : BillId) (s : Settlement) (weights : List (KeyId × UInt64)) :
    Spares (atCursor · c) (settle id s weights) := by
  have hweigh (voter : KeyId) (weight : UInt64) :
      Spares (atCursor · c) (weigh id voter weight) := by
    intro l
    have hsame : (l.atCursor c).ballots.get? (id, voter) = l.ballots.get? (id, voter) := rfl
    rw [weigh_apply, weigh_apply, hsame]
    cases l.ballots.get? (id, voter) <;> rfl
  refine .get_bind (fun _ => rfl) fun l => ?_
  cases l.bills.get? id with
  | none => exact .throw _
  | some bill =>
    refine (spares_ensureAbsent _ _).bind fun _ => ?_
    exact (Spares.forM fun e _ => hweigh e.1 e.2).bind fun _ _ => rfl

theorem spares_call (call : Call) (h : ∀ k, call ≠ .setCursor k) :
    Spares (atCursor · c) (call.run : Edit Ledger Unit) := by
  cases call with
  | insertDelegate d =>
    exact .of_eq (insertDelegate_apply · d) fun l => by simp only [inState_ite]; rfl
  | addDelegateVote voter delegate =>
    exact .of_eq (addDelegateVote_apply · voter delegate) fun l => by simp only [inState_ite]; rfl
  | removeDelegateVote voter delegate =>
    exact .of_eq (removeDelegateVote_apply · voter delegate) fun l => by
      simp only [inState_ite]; rfl
  | insertCommittee d =>
    exact .of_eq (insertCommittee_apply · d) fun l => by simp only [inState_ite]; rfl
  | putCommitteeVote voter committee =>
    exact .of_eq (putCommitteeVote_apply · voter committee) fun l => by simp only [inState_ite]; rfl
  | removeCommitteeVote voter committee =>
    exact .of_eq (removeCommitteeVote_apply · voter committee) fun l => by
      simp only [inState_ite]; rfl
  | insertBill b =>
    exact .of_eq (insertBill_apply · b) fun l => by simp only [inState_ite]; rfl
  | putBallot bill voter choice =>
    exact .of_eq (putBallot_apply · bill voter choice) fun l => by simp only [inState_ite]; rfl
  | settle id s weights => exact spares_settle id s weights
  | insertName address name =>
    exact .of_eq (insertName_apply · address name) fun l => by simp only [inState_ite]; rfl
  | insertToken t =>
    exact .of_eq (insertToken_apply · t) fun l => by simp only [inState_ite]; rfl
  | setTokenBalance token holder amount =>
    refine .of_eq (setTokenBalance_apply · token holder amount) fun l => ?_
    unfold withBalance
    split <;> rfl
  | addLock k =>
    refine .of_eq (addLock_apply · k) fun l => ?_
    dsimp only [atCursor]
    cases Word.checkedAdd ((l.tokenLocks.get? ((k.token, k.holder), k.expiry)).getD 0) k.amount <;>
      rfl
  | removeLock token holder expiry =>
    exact .of_eq (removeLock_apply · token holder expiry) fun l => by simp only [inState_ite]; rfl
  | setCoinBalance address amount =>
    exact .of_eq (setCoinBalance_apply · address amount) fun _ => rfl
  | setSynced p => exact fun _ => rfl
  | setCursor k => exact absurd rfl (h k)

theorem spares_read {α : Type} {g : Ledger → Except StoreFault α}
    (hg : ∀ l, g (l.atCursor c) = g l) : Spares (atCursor · c) (Step.read g) := Spares.read hg

theorem spares_consistent (call : Call) (h : ∀ k, call ≠ .setCursor k) :
    Spares (atCursor · c) (Step.consistent (call.run : Edit Ledger Unit)) :=
  (spares_call call h).consistent

theorem spares_unlock (d : TokenDebit) (available : UInt64) (k : TokenLock) :
    Spares (atCursor · c) (unlock d available k) := by
  have hremove : Spares (atCursor · c)
      (Step.consistent (LedgerEdits.removeLock k.token k.holder k.expiry)) :=
    spares_consistent (.removeLock k.token k.holder k.expiry) nofun
  refine hremove.bind fun _ => ?_
  cases Word.checkedAdd available k.amount with
  | some sum => exact .pure _
  | none => exact .throw _

theorem spares_withdraw (d : TokenDebit) : Spares (atCursor · c) (withdraw d) := by
  refine (spares_read fun _ => rfl).bind fun before => ?_
  refine (Spares.foldlM (fun a k _ => spares_unlock d a k) before).bind fun available => ?_
  cases Word.checkedSub available d.amount with
  | some remaining =>
    exact spares_consistent (.setTokenBalance d.token d.source remaining) nofun
  | none => exact .throw _

theorem spares_credit (d : TokenDebit) : Spares (atCursor · c) (credit d) := by
  refine (spares_read fun _ => rfl).bind fun balance => ?_
  cases Word.checkedAdd balance d.amount with
  | some sum => exact spares_consistent (.setTokenBalance d.token d.target sum) nofun
  | none => exact .throw _

theorem spares_perform (effect : Effect) : Spares (atCursor · c) (perform effect) := by
  cases effect with
  | registerDelegate d => exact spares_consistent (.insertDelegate d) nofun
  | voteDelegates voter delegates =>
    exact .forM fun d _ => spares_consistent (.addDelegateVote voter d) nofun
  | revokeDelegates voter delegates =>
    exact .forM fun d _ => spares_consistent (.removeDelegateVote voter d) nofun
  | registerCommittee d => exact spares_consistent (.insertCommittee d) nofun
  | voteCommittee voter d => exact spares_consistent (.putCommitteeVote voter d) nofun
  | revokeCommittee voter d => exact spares_consistent (.removeCommitteeVote voter d) nofun
  | submitBill bill => exact spares_consistent (.insertBill bill) nofun
  | voteBill bill voter choice =>
    exact spares_consistent (.putBallot bill voter choice) nofun
  | registerName address name => exact spares_consistent (.insertName address name) nofun
  | createToken t =>
    refine (spares_consistent (.insertToken t) nofun).bind fun _ => ?_
    exact spares_consistent (.setTokenBalance t.id t.owner t.total) nofun
  | transferToken d => exact (spares_withdraw d).bind fun _ => spares_credit d
  | lockToken d expiry =>
    refine (spares_withdraw d).bind fun _ => ?_
    exact spares_consistent (.addLock ⟨d.token, d.target, expiry, d.amount⟩) nofun

theorem spares_settleBill (b : Block) (coins : Coins) (id : BillId) :
    Spares (atCursor · c) (settleBill b coins id) := by
  refine (spares_read fun _ => rfl).bind fun bill => ?_
  cases bill with
  | none => exact .throw _
  | some bill =>
    refine (spares_read fun _ => rfl).bind fun votes => ?_
    exact (spares_settle id _ _).consistent.bind fun _ => .pure _

theorem spares_process (fees : FeeSchedule) (b : Block) (tx : Tx) :
    Spares (atCursor · c) (process fees b tx) := by
  have hoperation (op : Operation) : Spares (atCursor · c) (applyOperation fees b tx op) := by
    unfold applyOperation
    dsimp only
    split
    · exact .pure _
    · refine .get_bind (fun l => ?_) fun l => ?_
      · have hassess : assess (l.atCursor c) b.point tx.sender op = assess l b.point tx.sender op :=
          assess_setCursor l c b.point tx.sender op
        rw [hassess]
      · cases assess l b.point tx.sender op with
        | ok effect => exact (spares_perform effect).bind fun _ => .pure _
        | error e =>
          cases e with
          | refused r => exact .pure _
          | store fault => exact .throw _
  unfold process
  cases Payload.decode tx.payload with
  | error fault => exact .pure _
  | ok op =>
    cases op with
    | unrecognized opcode body => exact .pure _
    | _ => exact hoperation _

/-- A block above the cursor is entered alike wherever the cursor stands. -/
theorem enter_atCursor {b : Block} {cursor cursor' : Option Cursor} (coins : Coins) (l : Ledger)
    (h : entersBlock cursor b = true) (h' : entersBlock cursor' b = true) (c : Option Cursor) :
    enter b coins cursor' (l.atCursor c) =
      match enter b coins cursor l with
      | .ok settled l' => .ok settled l'
      | .error fault _ => .error fault (l.atCursor c) := by
  have hread := spares_read (c := c) (g := (LedgerReads.billsDue · b.time)) fun _ => rfl
  unfold enter Step.atomically
  simp only [h, h', if_true]
  rw [bind_apply, bind_apply, hread l]
  cases Step.read (LedgerReads.billsDue · b.time) l with
  | error fault l₁ => rfl
  | ok due l₁ =>
    have hsettle : Spares (atCursor · c) (due.mapM (settleBill b coins)) :=
      .mapM fun id _ => spares_settleBill b coins id
    dsimp only [inState]
    rw [bind_apply, bind_apply, hsettle l₁]
    cases due.mapM (settleBill b coins) l₁ with
    | error fault l₂ => rfl
    | ok settled l₂ => rfl

/-- A transaction that is applied moves the cursor behind itself, wherever it stood. -/
theorem applyTx_atCursor (fees : FeeSchedule) (b : Block) (tx : Tx) (l : Ledger)
    (c : Option Cursor) :
    applyTx fees b tx (l.atCursor c) =
      match process fees b tx l with
      | .ok outcome l' => .ok outcome (l'.atCursor (some ⟨b.height, indexAfter tx.index⟩))
      | .error fault _ => .error fault (l.atCursor c) := by
  rw [applyTx_eq]
  unfold Step.atomically
  rw [bind_apply, spares_process fees b tx l]
  cases process fees b tx l with
  | ok outcome l' => rfl
  | error fault l' => rfl

section

variable {fees : FeeSchedule} {b : Block} {cursor : Option Cursor}

/-- What a transaction does that is not behind the cursor. -/
theorem applyOrPass_atCursor (fees : FeeSchedule) (h : ∀ tx, isCovered cursor b tx = false)
    (tx : Tx) (l : Ledger) (c : Option Cursor) :
    applyOrPass fees b cursor tx (l.atCursor c) =
      match process fees b tx l with
      | .ok outcome l' =>
        .ok (tx.index, outcome) (l'.atCursor (some ⟨b.height, indexAfter tx.index⟩))
      | .error fault _ => .error fault (l.atCursor c) := by
  rw [applyOrPass_of_not_covered fees (h tx), bind_apply, applyTx_atCursor]
  cases process fees b tx l <;> rfl

/-- Transactions that can be processed one after another are applied, and the cursor ends behind the
last of them. -/
theorem mapM_applyOrPass (h : ∀ tx, isCovered cursor b tx = false) {txs : List Tx}
    {outcomes : List TxOutcome} {l l' : Ledger} (c : Option Cursor)
    (hrun : txs.mapM (process fees b) l = .ok outcomes l') :
    txs.mapM (applyOrPass fees b cursor) (l.atCursor c) =
      .ok ((txs.map Tx.index).zip outcomes) (l'.atCursor
        ((txs.map Tx.index).foldl (fun _ i => some ⟨b.height, indexAfter i⟩) c)) := by
  induction txs generalizing l c outcomes with
  | nil =>
    cases hrun
    rfl
  | cons tx rest ih =>
    obtain ⟨outcome, others, l₁, hp, hrest, rfl⟩ := mapM_cons_eq_ok.mp hrun
    have hfirst := applyOrPass_atCursor fees h tx l c
    rw [hp] at hfirst
    exact mapM_cons_ok hfirst (ih _ hrest)

end

end Ledger

def Block.carrying (b : Block) (txs : List Tx) : Block := { b with txs := txs }

namespace Chain

section

variable {σ : Type} [LedgerEdits σ] {b : Block} {txs xs ys : List Tx}

/-- Transactions in the order of their indices are in place. -/
theorem misplaced?_of_pairwise (h : txs.Pairwise fun x y => x.index < y.index) :
    misplaced? none txs = none := by
  have hafter (previous : Option UInt32) (hprevious : ∀ p ∈ previous, ∀ tx ∈ txs, p < tx.index) :
      misplaced? previous txs = none := by
    induction txs generalizing previous with
    | nil => cases previous <;> rfl
    | cons tx rest ih =>
      obtain ⟨hlater, hrest⟩ := List.pairwise_cons.mp h
      have hplaced : misplaced? (some tx.index) rest = none := by
        refine ih hrest (some tx.index) ?_
        rintro p ⟨⟩ tx' htx'
        exact hlater tx' htx'
      cases previous with
      | none => exact hplaced
      | some p =>
        have hnot : ¬ tx.index ≤ p := UInt32.not_le.mpr (hprevious p rfl tx List.mem_cons_self)
        simp only [misplaced?, hnot, if_false]
        exact hplaced
  refine hafter none ?_
  rintro p ⟨⟩

theorem misplaced?_congr (previous : Option UInt32) (h : xs.map Tx.index = ys.map Tx.index) :
    misplaced? previous xs = misplaced? previous ys := by
  induction xs generalizing previous ys with
  | nil =>
    cases ys with
    | nil => rfl
    | cons y ys => cases h
  | cons x xs ih =>
    cases ys with
    | nil => cases h
    | cons y ys =>
      obtain ⟨hindex, hrest⟩ := List.cons.inj h
      have hplaced := ih (some x.index) hrest
      cases previous <;> simp only [misplaced?, ← hindex, hplaced]

/-- The check looks at no more of the transactions than whether one is out of order. -/
theorem check_carrying (a : Applicant) (h : misplaced? none txs = misplaced? none b.txs) :
    check a (b.carrying txs) = check a b := by
  have htxs : misplaced? none (b.carrying txs).txs = misplaced? none b.txs := h
  unfold check
  rw [htxs]
  rfl

theorem applyOrPass_carrying (fees : FeeSchedule) (b : Block) (txs : List Tx)
    (cursor : Option Cursor) :
    (applyOrPass fees (b.carrying txs) cursor : Tx → Step σ _) = applyOrPass fees b cursor := rfl

end

end Chain

end CivicLedger
