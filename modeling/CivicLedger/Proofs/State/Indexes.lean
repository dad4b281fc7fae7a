import CivicLedger.Proofs.Ordered.Indexes
import CivicLedger.Proofs.State.Edits

/-!
# The indexes of a ledger

Beside each table of records stand the indexes by which it is searched: names, voters, the bills of
committees, due bills, tokens by address and by symbol, and the tokens that an address has held. No
edit, whether it succeeds or fails, makes an index differ from its table.
-/

namespace CivicLedger

open Program SortedMap

namespace Ledger

structure Indexed (l : Ledger) : Prop where
  delegates : Keyed l.delegates Delegate.address
  delegateNames : Inverse l.delegates Delegate.name l.delegateNames
  delegateVoters : Transposed l.delegateVotes l.delegateVoters
  committees : Keyed l.committees Committee.address
  committeeNames : Inverse l.committees Committee.name l.committeeNames
  committeeVoters : Grouped l.committeeVotes (fun committee => committee) l.committeeVoters
  bills : Keyed l.bills Bill.id
  committeeBills : Grouped l.bills Bill.committee l.committeeBills
  votedBills : Transposed l.ballots l.votedBills
  settlements : ∀ id, l.settlements.contains id = true → l.bills.contains id = true
  /-- The bills that are not settled, each by the end of its window. -/
  dueBills : ∀ time id, l.dueBills.contains (time, id) = true ↔
    ∃ bill, l.bills.get? id = some bill ∧ bill.closes = time ∧ l.settlements.get? id = none
  namedKeys : Inverse l.names (fun name => name) l.namedKeys
  tokens : Keyed l.tokens Token.id
  tokenAddresses : Inverse l.tokens Token.address l.tokenAddresses
  tokenSymbols : Inverse l.tokens (fun t => (t.owner, t.symbol)) l.tokenSymbols
  tokenBalances : ∀ k amount, l.tokenBalances.get? k = some amount → amount ≠ 0
  coinBalances : ∀ k amount, l.coinBalances.get? k = some amount → amount ≠ 0
  heldBalances : ∀ token holder, l.tokenBalances.contains (token, holder) = true →
    l.heldTokens.contains (holder, token) = true
  heldLocks : ∀ token holder expiry, l.tokenLocks.contains ((token, holder), expiry) = true →
    l.heldTokens.contains (holder, token) = true

theorem indexed_empty : Indexed ∅ where
  delegates := .empty _
  delegateNames := .empty _
  delegateVoters := .empty
  committees := .empty _
  committeeNames := .empty _
  committeeVoters := .empty _
  bills := .empty _
  committeeBills := .empty _
  votedBills := .empty
  settlements := by
    intro id h
    cases h
  dueBills := by
    intro time id
    constructor
    · rintro h
      cases h
    · rintro ⟨bill, h, _⟩
      cases h
  namedKeys := .empty _
  tokens := .empty _
  tokenAddresses := .empty _
  tokenSymbols := .empty _
  tokenBalances := by
    intro k amount h
    cases h
  coinBalances := by
    intro k amount h
    cases h
  heldBalances := by
    intro token holder h
    cases h
  heldLocks := by
    intro token holder expiry h
    cases h

theorem preserves_insertDelegate (d : Delegate) : Preserves Indexed (insertDelegate d) := by
  intro l h
  rw [insertDelegate_apply]
  split
  · exact h
  next haddress =>
  split
  · exact h
  next hname =>
  exact { h with
    delegates := h.delegates.insert d
    delegateNames :=
      h.delegateNames.insert (get?_of_not_contains haddress) (get?_of_not_contains hname) }

theorem preserves_addDelegateVote (voter delegate : KeyId) :
    Preserves Indexed (addDelegateVote voter delegate) := by
  intro l h
  rw [addDelegateVote_apply]
  split
  · exact h
  · exact { h with delegateVoters := h.delegateVoters.insert voter delegate () }

theorem preserves_removeDelegateVote (voter delegate : KeyId) :
    Preserves Indexed (removeDelegateVote voter delegate) := by
  intro l h
  rw [removeDelegateVote_apply]
  split
  · exact { h with delegateVoters := h.delegateVoters.erase voter delegate }
  · exact h

theorem preserves_insertCommittee (c : Committee) : Preserves Indexed (insertCommittee c) := by
  intro l h
  rw [insertCommittee_apply]
  split
  · exact h
  next haddress =>
  split
  · exact h
  next hname =>
  exact { h with
    committees := h.committees.insert c
    committeeNames :=
      h.committeeNames.insert (get?_of_not_contains haddress) (get?_of_not_contains hname) }

theorem preserves_putCommitteeVote (voter committee : KeyId) :
    Preserves Indexed (putCommitteeVote voter committee) := by
  intro l h
  rw [putCommitteeVote_apply]
  split
  · exact h
  next hvoter =>
  exact { h with
    committeeVoters := h.committeeVoters.insert (get?_of_not_contains hvoter) committee }

theorem preserves_removeCommitteeVote (voter committee : KeyId) :
    Preserves Indexed (removeCommitteeVote voter committee) := by
  intro l h
  rw [removeCommitteeVote_apply]
  split
  next hvote => exact { h with committeeVoters := h.committeeVoters.erase hvote }
  next => exact h

variable {l : Ledger}

/-- A bill that is stored for the first time has no settlement, and is due at its end. -/
theorem Indexed.withBill (h : l.Indexed) {b : Bill} (hb : l.bills.get? b.id = none) :
    Indexed { l with
      bills := l.bills.insert b.id b
      committeeBills := l.committeeBills.add (b.committee, b.id)
      dueBills := l.dueBills.add (b.closes, b.id) } := by
  have hopen : l.settlements.get? b.id = none := by
    rw [← contains_eq_false, Bool.eq_false_iff]
    intro hs
    obtain ⟨bill, hbill⟩ := contains_eq_true.mp (h.settlements b.id hs)
    rw [hb] at hbill
    cases hbill
  refine { h with
    bills := h.bills.insert b
    committeeBills := h.committeeBills.insert hb b
    settlements := fun id hs => contains_insert.mpr (.inr (h.settlements id hs))
    dueBills := ?_ }
  intro time id
  dsimp only
  rw [SortedSet.add, contains_insert, get?_insert, h.dueBills, Prod.mk.injEq]
  by_cases hid : id = b.id
  · subst hid
    simp [hb, hopen, eq_comm]
  · simp [hid]

theorem preserves_insertBill (b : Bill) : Preserves Indexed (insertBill b) := by
  intro l h
  rw [insertBill_apply]
  split
  · exact h
  next hb => exact h.withBill (get?_of_not_contains hb)

theorem preserves_putBallot (bill : BillId) (voter : KeyId) (choice : UInt8) :
    Preserves Indexed (putBallot bill voter choice) := by
  intro l h
  rw [putBallot_apply]
  split
  · exact h
  · exact { h with votedBills := h.votedBills.insert bill voter _ }

theorem preserves_weigh (bill : BillId) (voter : KeyId) (weight : UInt64) :
    Preserves Indexed (weigh bill voter weight) := by
  intro l h
  rw [weigh_apply]
  cases hb : l.ballots.get? (bill, voter) with
  | none => exact h
  | some ballot =>
    have hthere := contains_eq_true.mpr ⟨ballot, hb⟩
    exact { h with votedBills := h.votedBills.congr (contains_insert_of_contains hthere _) }

/-- A bill that is settled for the first time is no longer due. -/
theorem Indexed.withSettlement (h : l.Indexed) {id : BillId} {b : Bill}
    (hb : l.bills.get? id = some b) (s : Settlement) :
    Indexed { l with
      settlements := l.settlements.insert id s
      dueBills := l.dueBills.erase (b.closes, id) } := by
  refine { h with settlements := ?_, dueBills := ?_ }
  · intro other hs
    rcases contains_insert.mp hs with rfl | hs
    · exact contains_eq_true.mpr ⟨b, hb⟩
    · exact h.settlements other hs
  · intro time other
    dsimp only
    rw [contains_erase, get?_insert, h.dueBills]
    constructor
    · rintro ⟨hne, bill, hbill, rfl, hs⟩
      have hid : other ≠ id := by
        rintro rfl
        rw [hb] at hbill
        cases hbill
        exact hne rfl
      exact ⟨bill, hbill, rfl, by rw [if_neg hid, hs]⟩
    · rintro ⟨bill, hbill, rfl, hs⟩
      split at hs
      · cases hs
      next hid => exact ⟨fun e => hid (Prod.mk.inj e).2, bill, hbill, rfl, hs⟩

theorem preserves_settle (bill : BillId) (s : Settlement) (weights : List (KeyId × UInt64)) :
    Preserves Indexed (settle bill s weights) := by
  intro l h
  unfold settle
  rw [get_bind]
  cases hb : l.bills.get? bill with
  | none => exact h
  | some b =>
    simp only []
    rw [ensureAbsent_bind]
    split
    · exact h
    have hweighed := Preserves.forM (fun e _ => preserves_weigh bill e.1 e.2) (l := weights) l h
    have hbills := keeps_weigh Ledger.bills bill (fun _ _ => rfl) weights l
    rw [bind_apply]
    generalize (weights.forM fun e => weigh bill e.1 e.2) l = r at hweighed hbills
    cases r with
    | ok u l' => exact hweighed.withSettlement ((congrArg (·.get? bill) hbills).trans hb) s
    | error fault l' => exact hweighed

theorem preserves_insertName (address : KeyId) (name : String) :
    Preserves Indexed (insertName address name) := by
  intro l h
  rw [insertName_apply]
  split
  · exact h
  next haddress =>
  split
  · exact h
  next hname =>
  exact { h with
    namedKeys := h.namedKeys.insert (get?_of_not_contains haddress) (get?_of_not_contains hname) }

theorem preserves_insertToken (t : Token) : Preserves Indexed (insertToken t) := by
  intro l h
  rw [insertToken_apply]
  split
  · exact h
  next hid =>
  split
  · exact h
  next haddress =>
  split
  · exact h
  next hsymbol =>
  exact { h with
    tokens := h.tokens.insert t
    tokenAddresses :=
      h.tokenAddresses.insert (get?_of_not_contains hid) (get?_of_not_contains haddress)
    tokenSymbols :=
      h.tokenSymbols.insert (get?_of_not_contains hid) (get?_of_not_contains hsymbol) }

/-- What has been held stays so. -/
theorem Indexed.noteHolding (h : l.Indexed) (token : TokenId) (holder : KeyId) :
    Indexed { l with heldTokens := l.heldTokens.add (holder, token) } :=
  { h with
    heldBalances := fun t k hk => contains_insert.mpr (.inr (h.heldBalances t k hk))
    heldLocks := fun t k e hk => contains_insert.mpr (.inr (h.heldLocks t k e hk)) }

theorem preserves_setTokenBalance (token : TokenId) (holder : KeyId) (amount : UInt64) :
    Preserves Indexed (setTokenBalance token holder amount) := by
  intro l h
  rw [setTokenBalance_apply]
  unfold withBalance
  split
  · exact { h with
      tokenBalances := forall_erase h.tokenBalances
      heldBalances := fun t k hk => h.heldBalances t k (contains_erase.mp hk).2 }
  next hamount =>
  have hnoted := h.noteHolding token holder
  refine { hnoted with tokenBalances := forall_insert h.tokenBalances hamount, heldBalances := ?_ }
  intro t k hk
  rcases contains_insert.mp hk with heq | hk
  · cases heq
    exact contains_insert.mpr (.inl rfl)
  · exact hnoted.heldBalances t k hk

theorem preserves_addLock (k : TokenLock) : Preserves Indexed (addLock k) := by
  intro l h
  rw [addLock_apply]
  split
  · exact h
  have hnoted := h.noteHolding k.token k.holder
  refine { hnoted with heldLocks := ?_ }
  intro token holder expiry hk
  rcases contains_insert.mp hk with heq | hk
  · cases heq
    exact contains_insert.mpr (.inl rfl)
  · exact hnoted.heldLocks token holder expiry hk

theorem preserves_removeLock (token : TokenId) (holder : KeyId) (expiry : Height) :
    Preserves Indexed (removeLock token holder expiry) := by
  intro l h
  rw [removeLock_apply]
  split
  · exact { h with heldLocks := fun t k e hk => h.heldLocks t k e (contains_erase.mp hk).2 }
  · exact h

theorem preserves_setCoinBalance (address : KeyId) (amount : UInt64) :
    Preserves Indexed (setCoinBalance address amount) := by
  intro l h
  rw [setCoinBalance_apply]
  refine { h with coinBalances := ?_ }
  change ∀ k a, (if amount = 0 then l.coinBalances.erase address
    else l.coinBalances.insert address amount).get? k = some a → a ≠ 0
  split
  · exact forall_erase h.coinBalances
  next hamount => exact forall_insert h.coinBalances hamount

end Ledger

end CivicLedger
