import CivicLedger.Chain.Perform
import CivicLedger.Proofs.State.Supply

/-!
# What admitted effects do

The ledger that an effect leads to, as one function of the ledger it finds. Performing an admitted
effect succeeds and leaves that ledger: no entry is in its way, and while tokens are conserved no
sum that it forms overflows.
-/

namespace CivicLedger

open Program Chain

namespace Ledger

open SortedMap

def withVote (l : Ledger) (voter delegate : KeyId) : Ledger :=
  { l with
    delegateVotes := l.delegateVotes.add (voter, delegate)
    delegateVoters := l.delegateVoters.add (delegate, voter) }

def withoutVote (l : Ledger) (voter delegate : KeyId) : Ledger :=
  { l with
    delegateVotes := l.delegateVotes.erase (voter, delegate)
    delegateVoters := l.delegateVoters.erase (delegate, voter) }

def withToken (l : Ledger) (t : Token) : Ledger :=
  { l with
    tokens := l.tokens.insert t.id t
    tokenAddresses := l.tokenAddresses.insert t.address t.id
    tokenSymbols := l.tokenSymbols.insert (t.owner, t.symbol) t.id }

def remaining (l : Ledger) (d : TokenDebit) : UInt64 :=
  UInt64.ofNat ((l.available d.token d.source).toNat + heldIn d.matured - d.amount.toNat)

def withdrawn (l : Ledger) (d : TokenDebit) : Ledger :=
  (l.unlocked d.matured).withBalance d.token d.source (l.remaining d)

def credited (l : Ledger) (d : TokenDebit) : Ledger :=
  l.withBalance d.token d.target (l.available d.token d.target + d.amount)

def locked (l : Ledger) (k : TokenLock) : Ledger := l.withLock k (l.lockedAt k + k.amount)

def enact (l : Ledger) : Effect → Ledger
  | .registerDelegate d =>
    { l with
      delegates := l.delegates.insert d.address d
      delegateNames := l.delegateNames.insert d.name d.address }
  | .voteDelegates voter delegates => delegates.foldl (·.withVote voter ·) l
  | .revokeDelegates voter delegates => delegates.foldl (·.withoutVote voter ·) l
  | .registerCommittee c =>
    { l with
      committees := l.committees.insert c.address c
      committeeNames := l.committeeNames.insert c.name c.address }
  | .voteCommittee voter committee =>
    { l with
      committeeVotes := l.committeeVotes.insert voter committee
      committeeVoters := l.committeeVoters.add (committee, voter) }
  | .revokeCommittee voter committee =>
    { l with
      committeeVotes := l.committeeVotes.erase voter
      committeeVoters := l.committeeVoters.erase (committee, voter) }
  | .submitBill b =>
    { l with
      bills := l.bills.insert b.id b
      committeeBills := l.committeeBills.add (b.committee, b.id)
      dueBills := l.dueBills.add (b.closes, b.id) }
  | .voteBill bill voter choice =>
    { l with
      ballots := l.ballots.insert (bill, voter) ⟨choice, none⟩
      votedBills := l.votedBills.add (voter, bill) }
  | .registerName address name =>
    { l with
      names := l.names.insert address name
      namedKeys := l.namedKeys.insert name address }
  | .createToken t => (l.withToken t).withBalance t.id t.owner t.total
  | .transferToken d => (l.withdrawn d).credited d
  | .lockToken d expiry => (l.withdrawn d).locked ⟨d.token, d.target, expiry, d.amount⟩

theorem withBalance_eq (l : Ledger) (token : TokenId) (holder : KeyId) (amount : UInt64) :
    l.withBalance token holder amount =
      { l with
        tokenBalances := (l.withBalance token holder amount).tokenBalances
        heldTokens := (l.withBalance token holder amount).heldTokens } := by
  unfold withBalance
  split <;> rfl

theorem enact_voteDelegates (l : Ledger) (voter : KeyId) (delegates : List KeyId) :
    l.enact (.voteDelegates voter delegates) =
      { l with
        delegateVotes := delegates.foldl (fun s d => s.add (voter, d)) l.delegateVotes
        delegateVoters := delegates.foldl (fun s d => s.add (d, voter)) l.delegateVoters } := by
  unfold enact
  induction delegates generalizing l with
  | nil => rfl
  | cons d rest ih => exact ih _

theorem enact_revokeDelegates (l : Ledger) (voter : KeyId) (delegates : List KeyId) :
    l.enact (.revokeDelegates voter delegates) =
      { l with
        delegateVotes := delegates.foldl (fun s d => s.erase (voter, d)) l.delegateVotes
        delegateVoters := delegates.foldl (fun s d => s.erase (d, voter)) l.delegateVoters } := by
  unfold enact
  induction delegates generalizing l with
  | nil => rfl
  | cons d rest ih => exact ih _

theorem enact_createToken (l : Ledger) (t : Token) :
    l.enact (.createToken t) =
      { l with
        tokens := l.tokens.insert t.id t
        tokenAddresses := l.tokenAddresses.insert t.address t.id
        tokenSymbols := l.tokenSymbols.insert (t.owner, t.symbol) t.id
        tokenBalances := (l.enact (.createToken t)).tokenBalances
        heldTokens := (l.enact (.createToken t)).heldTokens } :=
  withBalance_eq (l.withToken t) t.id t.owner t.total

theorem withdrawn_eq (l : Ledger) (d : TokenDebit) :
    l.withdrawn d =
      { l with
        tokenBalances := (l.withdrawn d).tokenBalances
        tokenLocks := (l.unlocked d.matured).tokenLocks
        heldTokens := (l.withdrawn d).heldTokens } :=
  withBalance_eq (l.unlocked d.matured) d.token d.source (l.remaining d)

/-- A transfer changes balances, removes the locks that have matured, and nothing else. -/
theorem enact_transferToken (l : Ledger) (d : TokenDebit) :
    l.enact (.transferToken d) =
      { l with
        tokenBalances := (l.enact (.transferToken d)).tokenBalances
        tokenLocks := (l.unlocked d.matured).tokenLocks
        heldTokens := (l.enact (.transferToken d)).heldTokens } :=
  (withBalance_eq (l.withdrawn d) d.token d.target _).trans
    (congrArg (fun m : Ledger => { m with
      tokenBalances := (l.enact (.transferToken d)).tokenBalances
      heldTokens := (l.enact (.transferToken d)).heldTokens }) (withdrawn_eq l d))

theorem enact_lockToken (l : Ledger) (d : TokenDebit) (expiry : Height) :
    l.enact (.lockToken d expiry) =
      { l with
        tokenBalances := (l.withdrawn d).tokenBalances
        tokenLocks := (l.enact (.lockToken d expiry)).tokenLocks
        heldTokens := (l.enact (.lockToken d expiry)).heldTokens } :=
  congrArg (fun m : Ledger => { m with
    tokenLocks := (l.enact (.lockToken d expiry)).tokenLocks
    heldTokens := (l.enact (.lockToken d expiry)).heldTokens }) (withdrawn_eq l d)

/-- Edits one after another, each for its own delegate, of which none takes from another what it
needs. -/
theorem forM_delegates {edit : KeyId → Step Ledger Unit} {edited : Ledger → KeyId → Ledger}
    {P : Ledger → KeyId → Prop} {delegates : List KeyId} (l : Ledger)
    (hedit : ∀ l d, P l d → edit d l = .ok () (edited l d))
    (hkeep : ∀ l d e, e ≠ d → P l e → P (edited l d) e) (hd : delegates.Nodup)
    (h : ∀ d ∈ delegates, P l d) :
    delegates.forM edit l = .ok () (delegates.foldl edited l) := by
  induction delegates generalizing l with
  | nil => rfl
  | cons d rest ih =>
    obtain ⟨hfresh, hrest⟩ := List.nodup_cons.mp hd
    have hfirst := hedit l d (h d List.mem_cons_self)
    refine (bind_ok hfirst _).trans (ih _ hrest fun e he => ?_)
    have hne : e ≠ d := fun heq => hfresh (heq ▸ he)
    exact hkeep l d e hne (h e (List.mem_cons_of_mem d he))

theorem addVotes {voter : KeyId} {delegates : List KeyId} (l : Ledger) (hd : delegates.Nodup)
    (h : ∀ d ∈ delegates, l.delegateVotes.contains (voter, d) = false) :
    (delegates.forM fun d => Step.consistent (LedgerEdits.addDelegateVote voter d)) l =
      .ok () (delegates.foldl (·.withVote voter ·) l) := by
  refine forM_delegates (P := fun l d => l.delegateVotes.contains (voter, d) = false) l
    ?_ ?_ hd h
  · intro l d hfree
    refine consistent_eq_ok.mpr ((addDelegateVote_apply l voter d).trans ?_)
    rw [hfree]
    rfl
  · intro l d e hne hfree
    have hpair : (voter, e) ≠ (voter, d) := fun heq => hne (Prod.mk.inj heq).2
    rwa [contains_eq_false, withVote, SortedSet.add, get?_insert_ne _ _ hpair,
      ← contains_eq_false]

theorem removeVotes {voter : KeyId} {delegates : List KeyId} (l : Ledger) (hd : delegates.Nodup)
    (h : ∀ d ∈ delegates, l.delegateVotes.contains (voter, d) = true) :
    (delegates.forM fun d => Step.consistent (LedgerEdits.removeDelegateVote voter d)) l =
      .ok () (delegates.foldl (·.withoutVote voter ·) l) := by
  refine forM_delegates (P := fun l d => l.delegateVotes.contains (voter, d) = true) l
    ?_ ?_ hd h
  · intro l d hvoted
    refine consistent_eq_ok.mpr ((removeDelegateVote_apply l voter d).trans ?_)
    rw [hvoted]
    rfl
  · intro l d e hne hvoted
    have hpair : (voter, e) ≠ (voter, d) := fun heq => hne (Prod.mk.inj heq).2
    rwa [contains, withoutVote, get?_erase_ne _ hpair, ← contains]

variable {l : Ledger} {d : TokenDebit}

/-- Matured locks become available one after another. -/
theorem foldlM_unlock {locks : List TokenLock} {start : UInt64} (l : Ledger)
    (h : l.Kept d.token d.source locks) (hfit : start.toNat + heldIn locks < UInt64.size) :
    locks.foldlM (unlock d) start l =
      .ok (UInt64.ofNat (start.toNat + heldIn locks)) (l.unlocked locks) := by
  induction locks generalizing l start with
  | nil => simp [unlocked]
  | cons k rest ih =>
    rw [heldIn_cons] at hfit
    have hremove : Step.consistent (LedgerEdits.removeLock k.token k.holder k.expiry) l =
        .ok () { l with tokenLocks := l.tokenLocks.erase k.key } := by
      have hthere : l.tokenLocks.contains k.key = true :=
        contains_eq_true.mpr ⟨_, h.stored k List.mem_cons_self⟩
      rw [consistent_eq_ok]
      exact (removeLock_apply l k.token k.holder k.expiry).trans (if_pos hthere)
    have hsum : Word.checkedAdd start k.amount = some (start + k.amount) :=
      if_pos (by omega)
    have hunlock : unlock d start k l =
        .ok (start + k.amount) { l with tokenLocks := l.tokenLocks.erase k.key } := by
      unfold unlock
      refine (bind_ok hremove _).trans ?_
      rw [hsum]
      rfl
    have hnat : (start + k.amount).toNat = start.toNat + k.amount.toNat :=
      ((Word.checkedAdd_eq_some_iff).mp hsum).symm
    rw [List.foldlM_cons]
    refine (bind_ok hunlock _).trans ?_
    rw [ih _ h.tail (by omega), unlocked_cons, heldIn_cons, hnat, Nat.add_assoc]

theorem Backed.kept (h : l.Backed d) : l.Kept d.token d.source d.matured := by
  obtain ⟨height, hm⟩ := h.matured
  rw [hm]
  exact (kept_locksOf l d.token d.source).filter _

/-- The payer can make the payment in exact arithmetic. -/
theorem Backed.amount_le (h : l.Backed d) :
    d.amount.toNat ≤ (l.available d.token d.source).toNat + heldIn d.matured :=
  Nat.le_trans (UInt64.le_iff_toNat_le.mp h.enough) (toNat_spendableTotal_le _ _)

/-- What a payer can spend is outstanding. -/
theorem Backed.spendable_le (h : l.Backed d) :
    (l.available d.token d.source).toNat + heldIn d.matured ≤ l.outstanding d.token := by
  have hbalance := toNat_available_le l d.token d.source
  -- The matured locks are what unlocking takes out of the total of all locks.
  have hlocks := h.kept.total_unlocked d.token
  rw [if_pos rfl] at hlocks
  unfold outstanding
  omega

theorem outstanding_lt_size (hc : l.Conserved) (id : TokenId) : l.outstanding id < UInt64.size := by
  rw [hc.supply id]
  exact issued_lt_size l id

theorem Backed.toNat_remaining (hc : l.Conserved) (h : l.Backed d) :
    (l.remaining d).toNat + d.amount.toNat =
      (l.available d.token d.source).toNat + heldIn d.matured := by
  have hle := h.amount_le
  have hspend := h.spendable_le
  have hfit := outstanding_lt_size hc d.token
  unfold remaining
  rw [UInt64.toNat_ofNat_of_lt' (by omega)]
  omega

theorem available_unlocked (l : Ledger) (locks : List TokenLock) (token : TokenId)
    (holder : KeyId) : (l.unlocked locks).available token holder = l.available token holder := rfl

/-- A payment takes its amount out of what is outstanding. -/
theorem Backed.outstanding_withdrawn (hc : l.Conserved) (h : l.Backed d) (id : TokenId) :
    (l.withdrawn d).outstanding id + (if d.token = id then d.amount.toNat else 0) =
      l.outstanding id := by
  have hbalance :=
    outstanding_withBalance (l.unlocked d.matured) d.token d.source (l.remaining d) id
  have hlocks := h.kept.total_unlocked id
  have hremaining := h.toNat_remaining hc
  rw [available_unlocked] at hbalance
  change (l.withdrawn d).outstanding id + _ = total (balanceShare id) l.tokenBalances + _ + _
    at hbalance
  unfold outstanding at *
  split at hbalance <;> simp_all only [if_true, if_false] <;> omega

theorem withdraw_apply (hc : l.Conserved) (h : l.Backed d) :
    withdraw d l = .ok () (l.withdrawn d) := by
  have hfit := outstanding_lt_size hc d.token
  have hspend := h.spendable_le
  have hread : Step.read (LedgerReads.tokenBalance · d.token d.source) l =
      .ok (l.available d.token d.source) l := read_of_ok rfl
  have hsub : Word.checkedSub
      (UInt64.ofNat ((l.available d.token d.source).toNat + heldIn d.matured)) d.amount =
      some (l.remaining d) := by
    rw [Word.checkedSub_eq_some_iff, h.toNat_remaining hc, UInt64.toNat_ofNat_of_lt' (by omega)]
  unfold withdraw
  refine (bind_ok hread _).trans ((bind_ok (foldlM_unlock l h.kept (by omega)) _).trans ?_)
  rw [hsub]
  rfl

/-- After a payment its amount fits on top of whatever is held. -/
theorem Backed.fits (hc : l.Conserved) (h : l.Backed d) {held : UInt64}
    (hle : held.toNat ≤ (l.withdrawn d).outstanding d.token) :
    Word.checkedAdd held d.amount = some (held + d.amount) := by
  have hout := h.outstanding_withdrawn hc d.token
  have hfit := outstanding_lt_size hc d.token
  rw [if_pos rfl] at hout
  exact if_pos (by omega)

theorem Backed.fits_available (hc : l.Conserved) (h : l.Backed d) :
    Word.checkedAdd ((l.withdrawn d).available d.token d.target) d.amount =
      some ((l.withdrawn d).available d.token d.target + d.amount) := by
  have hle := toNat_available_le (l.withdrawn d) d.token d.target
  exact h.fits hc (Nat.le_trans hle (Nat.le_add_right _ _))

theorem Backed.fits_locked (hc : l.Conserved) (h : l.Backed d) (expiry : Height) :
    Word.checkedAdd ((l.withdrawn d).lockedAt ⟨d.token, d.target, expiry, d.amount⟩) d.amount =
      some ((l.withdrawn d).lockedAt ⟨d.token, d.target, expiry, d.amount⟩ + d.amount) := by
  have hle := toNat_lockedAt_le (l.withdrawn d) ⟨d.token, d.target, expiry, d.amount⟩
  exact h.fits hc (Nat.le_trans hle (Nat.le_add_left _ _))

theorem credit_apply (hc : l.Conserved) (h : l.Backed d) :
    credit d (l.withdrawn d) = .ok () ((l.withdrawn d).credited d) := by
  have hread : Step.read (LedgerReads.tokenBalance · d.token d.target) (l.withdrawn d) =
      .ok ((l.withdrawn d).available d.token d.target) (l.withdrawn d) := read_of_ok rfl
  have hsum := h.fits_available hc
  unfold credit
  refine (bind_ok hread _).trans ?_
  rw [hsum]
  rfl

theorem addLock_withdrawn (hc : l.Conserved) (h : l.Backed d) (expiry : Height) :
    Step.consistent (LedgerEdits.addLock ⟨d.token, d.target, expiry, d.amount⟩) (l.withdrawn d) =
      .ok () ((l.withdrawn d).locked ⟨d.token, d.target, expiry, d.amount⟩) := by
  have hsum := h.fits_locked hc expiry
  rw [consistent_eq_ok]
  refine (addLock_apply _ _).trans ?_
  unfold lockedAt TokenLock.key at hsum
  rw [hsum]
  rfl

def HasRoom (l : Ledger) : Effect → Prop
  | .createToken t => l.tokens.contains t.id = false
  | _ => True

/-- An admitted effect is performed, and leaves the ledger that it leads to. -/
theorem perform_apply {e : Effect} (hc : l.Conserved) (ha : l.Admits e) (hr : l.HasRoom e) :
    perform e l = .ok () (l.enact e) := by
  cases e with
  | registerDelegate d =>
    obtain ⟨haddress, hname⟩ := ha
    refine consistent_eq_ok.mpr ((insertDelegate_apply l d).trans ?_)
    rw [haddress, hname]
    rfl
  | voteDelegates voter delegates => exact addVotes l ha.1 ha.2
  | revokeDelegates voter delegates => exact removeVotes l ha.1 ha.2
  | registerCommittee c =>
    obtain ⟨haddress, hname⟩ := ha
    refine consistent_eq_ok.mpr ((insertCommittee_apply l c).trans ?_)
    rw [haddress, hname]
    rfl
  | voteCommittee voter committee =>
    refine consistent_eq_ok.mpr ((putCommitteeVote_apply l voter committee).trans ?_)
    exact if_neg (Bool.eq_false_iff.mp ha)
  | revokeCommittee voter committee =>
    refine consistent_eq_ok.mpr ((removeCommitteeVote_apply l voter committee).trans ?_)
    exact if_pos ha
  | submitBill b =>
    refine consistent_eq_ok.mpr ((insertBill_apply l b).trans ?_)
    exact if_neg (Bool.eq_false_iff.mp ha)
  | voteBill bill voter choice =>
    refine consistent_eq_ok.mpr ((putBallot_apply l bill voter choice).trans ?_)
    exact if_neg (Bool.eq_false_iff.mp ha)
  | registerName address name =>
    obtain ⟨haddress, hname⟩ := ha
    refine consistent_eq_ok.mpr ((insertName_apply l address name).trans ?_)
    rw [haddress, hname]
    rfl
  | createToken t =>
    obtain ⟨_, haddress, hsymbol⟩ := ha
    have hid : l.tokens.contains t.id = false := hr
    have hinsert : Step.consistent (LedgerEdits.insertToken t) l = .ok () (l.withToken t) := by
      refine consistent_eq_ok.mpr ((insertToken_apply l t).trans ?_)
      rw [hid, haddress, hsymbol]
      rfl
    exact (bind_ok hinsert _).trans rfl
  | transferToken d => exact (bind_ok (withdraw_apply hc ha) _).trans (credit_apply hc ha)
  | lockToken d expiry =>
    exact (bind_ok (withdraw_apply hc ha) _).trans (addLock_withdrawn hc ha expiry)

/-- An effect that finds no room gives up the chain. -/
theorem perform_eq_error {e : Effect} (h : ¬ l.HasRoom e) :
    ∃ cause, perform e l = .error (.inconsistent cause) l := by
  cases e with
  | createToken t =>
    have hid : l.tokens.contains t.id = true := Bool.of_not_eq_false h
    have hinsert : Step.consistent (LedgerEdits.insertToken t) l =
        .error (.inconsistent (.store (.duplicate (.token t.id)))) l := by
      have hedit := insertToken_apply l t
      rw [if_pos hid] at hedit
      exact consistent_of_error hedit
    exact ⟨_, bind_error hinsert _⟩
  | _ => exact absurd trivial h

theorem Conserved.withdrawn_credited (hc : l.Conserved) (h : l.Backed d) :
    ((l.withdrawn d).credited d).Conserved where
  supply id := by
    have hout := h.outstanding_withdrawn hc id
    have hcredit := outstanding_withBalance (l.withdrawn d) d.token d.target
      ((l.withdrawn d).available d.token d.target + d.amount) id
    have hsum := Word.checkedAdd_eq_some_iff.mp (h.fits_available hc)
    have htokens : ((l.withdrawn d).credited d).issued id = l.issued id := by
      unfold issued credited withdrawn
      simp only [tokens_withBalance]
      rfl
    have hsupply := hc.supply id
    rw [htokens]
    unfold credited
    split at hcredit <;> simp_all only [if_true, if_false] <;> omega
  balances k a hk := by
    simp only [credited, withdrawn, tokens_withBalance]
    rcases get?_withBalance _ _ _ _ hk with hk | hk
    · rw [hk]
      exact h.token
    rcases get?_withBalance _ _ _ _ hk with hk | hk
    · rw [hk]
      exact h.token
    · exact hc.balances k a hk
  locks k a hk := by
    simp only [credited, withdrawn, tokens_withBalance, tokenLocks_withBalance] at hk ⊢
    exact hc.locks k a (get?_unlocked hk)

theorem Conserved.withdrawn_locked (hc : l.Conserved) (h : l.Backed d) (expiry : Height) :
    ((l.withdrawn d).locked ⟨d.token, d.target, expiry, d.amount⟩).Conserved where
  supply id := by
    have hout := h.outstanding_withdrawn hc id
    have hlock := outstanding_withLock (l.withdrawn d) ⟨d.token, d.target, expiry, d.amount⟩
      ((l.withdrawn d).lockedAt ⟨d.token, d.target, expiry, d.amount⟩ + d.amount) id
    have hsum := Word.checkedAdd_eq_some_iff.mp (h.fits_locked hc expiry)
    have htokens : ((l.withdrawn d).locked ⟨d.token, d.target, expiry, d.amount⟩).issued id =
        l.issued id := by
      unfold issued locked withLock withdrawn
      simp only [tokens_withBalance]
      rfl
    have hsupply := hc.supply id
    rw [htokens]
    unfold locked
    dsimp only at *
    split at hlock <;> simp_all only [if_true, if_false] <;> omega
  balances k a hk := by
    simp only [locked, withLock, withdrawn, tokens_withBalance] at hk ⊢
    rcases get?_withBalance _ _ _ _ hk with hk | hk
    · rw [hk]
      exact h.token
    · exact hc.balances k a hk
  locks k a hk := by
    have htokens : ((l.withdrawn d).locked ⟨d.token, d.target, expiry, d.amount⟩).tokens =
        l.tokens := tokens_withBalance _ _ _ _
    rw [htokens]
    rcases get?_withLock hk with hk | hk
    · rw [hk]
      exact h.token
    · rw [withdrawn, tokenLocks_withBalance] at hk
      exact hc.locks k a (get?_unlocked hk)

/-- A number without a record has nothing outstanding, so its token starts with what its owner
receives. -/
theorem Conserved.withToken (hc : l.Conserved) {t : Token}
    (hid : l.tokens.contains t.id = false) :
    ((l.withToken t).withBalance t.id t.owner t.total).Conserved where
  supply id := by
    have hbalance := outstanding_withBalance (l.withToken t) t.id t.owner t.total id
    have hnone : l.tokens.get? t.id = none := contains_eq_false.mp hid
    have hzero : l.outstanding t.id = 0 := by rw [hc.supply, issued, hnone]; rfl
    have havail : (l.available t.id t.owner).toNat = 0 :=
      congrArg UInt64.toNat (hc.available_of_free hnone t.owner)
    have hsupply := hc.supply id
    have hout : (l.withToken t).outstanding id = l.outstanding id := rfl
    have hsame : (l.withToken t).available t.id t.owner = l.available t.id t.owner := rfl
    have hissued : ((l.withToken t).withBalance t.id t.owner t.total).issued id =
        if id = t.id then t.total.toNat else l.issued id := by
      unfold issued
      rw [tokens_withBalance, Ledger.withToken, get?_insert]
      by_cases h : id = t.id <;> simp [h]
    rw [hout, hsame, havail, ite_self] at hbalance
    rw [hissued]
    by_cases h : id = t.id
    · subst h
      simp only [if_true] at hbalance ⊢
      omega
    · rw [if_neg fun e => h e.symm] at hbalance
      rw [if_neg h]
      omega
  balances k a hk := by
    rw [tokens_withBalance, Ledger.withToken, get?_insert]
    split
    · exact ⟨t, rfl⟩
    · next hne =>
      rcases get?_withBalance _ _ _ _ hk with hk | hk
      · exact absurd hk hne
      · exact hc.balances k a hk
  locks k a hk := by
    rw [tokens_withBalance, Ledger.withToken, get?_insert]
    split
    · exact ⟨t, rfl⟩
    · rw [tokenLocks_withBalance] at hk
      exact hc.locks k a hk

def tokenPart (l : Ledger) :=
  (l.tokens, l.tokenBalances, l.tokenLocks)

theorem Conserved.congr (hc : l.Conserved) {l' : Ledger} (h : l'.tokenPart = l.tokenPart) :
    l'.Conserved := by
  obtain ⟨ht, hrest⟩ := Prod.mk.inj h
  obtain ⟨hb, hk⟩ := Prod.mk.inj hrest
  constructor
  · intro id
    have hsupply := hc.supply id
    unfold outstanding issued at *
    rw [ht, hb, hk]
    exact hsupply
  · intro k a h
    rw [ht]
    exact hc.balances k a (hb ▸ h)
  · intro k a h
    rw [ht]
    exact hc.locks k a (hk ▸ h)

/-- An admitted effect conserves tokens. -/
theorem Conserved.enact {e : Effect} (hc : l.Conserved) (ha : l.Admits e) (hr : l.HasRoom e) :
    (l.enact e).Conserved := by
  cases e with
  | voteDelegates voter delegates => exact hc.congr (by rw [enact_voteDelegates, tokenPart, tokenPart])
  | revokeDelegates voter delegates =>
    exact hc.congr (by rw [enact_revokeDelegates, tokenPart, tokenPart])
  | createToken t => exact hc.withToken hr
  | transferToken d => exact hc.withdrawn_credited ha
  | lockToken d expiry => exact hc.withdrawn_locked ha expiry
  | _ => exact hc.congr rfl

end Ledger

end CivicLedger
