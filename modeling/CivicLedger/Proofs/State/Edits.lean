import CivicLedger.Proofs.Ordered.Entries
import CivicLedger.Proofs.State.Program
import CivicLedger.State.Ledger

/-!
# What the edits of a ledger do

One equation for each edit of a ledger in memory: where it fails and how, and the ledger that it
leaves where it does not.
-/

namespace CivicLedger.Ledger

open Program

variable (l : Ledger)

theorem ensureAbsent_bind {α : Type} (entry : Entry) (there : Bool) (p : Edit Ledger α) :
    (ensureAbsent entry there >>= fun _ => p) l =
      if there then .error (.duplicate entry) l else p l := by
  cases there <;> rfl

theorem ensurePresent_bind {α : Type} (entry : Entry) (there : Bool) (p : Edit Ledger α) :
    (ensurePresent entry there >>= fun _ => p) l =
      if there then p l else .error (.notFound entry) l := by
  cases there <;> rfl

theorem get_bind {α : Type} (p : Ledger → Edit Ledger α) : (get >>= p) l = p l l := rfl

theorem insertDelegate_apply (d : Delegate) :
    insertDelegate d l =
      if l.delegates.contains d.address then .error (.duplicate (.delegate d.address)) l
      else if l.delegateNames.contains d.name then .error (.duplicate (.delegateName d.name)) l
      else .ok () { l with
        delegates := l.delegates.insert d.address d
        delegateNames := l.delegateNames.insert d.name d.address } := by
  simp only [insertDelegate, get_bind, ensureAbsent_bind, set_apply]

theorem addDelegateVote_apply (voter delegate : KeyId) :
    addDelegateVote voter delegate l =
      if l.delegateVotes.contains (voter, delegate) then
        .error (.duplicate (.delegateVote voter delegate)) l
      else .ok () { l with
        delegateVotes := l.delegateVotes.add (voter, delegate)
        delegateVoters := l.delegateVoters.add (delegate, voter) } := by
  simp only [addDelegateVote, get_bind, ensureAbsent_bind, set_apply]

theorem removeDelegateVote_apply (voter delegate : KeyId) :
    removeDelegateVote voter delegate l =
      if l.delegateVotes.contains (voter, delegate) then
        .ok () { l with
          delegateVotes := l.delegateVotes.erase (voter, delegate)
          delegateVoters := l.delegateVoters.erase (delegate, voter) }
      else .error (.notFound (.delegateVote voter delegate)) l := by
  simp only [removeDelegateVote, get_bind, ensurePresent_bind, set_apply]

theorem insertCommittee_apply (c : Committee) :
    insertCommittee c l =
      if l.committees.contains c.address then .error (.duplicate (.committee c.address)) l
      else if l.committeeNames.contains c.name then .error (.duplicate (.committeeName c.name)) l
      else .ok () { l with
        committees := l.committees.insert c.address c
        committeeNames := l.committeeNames.insert c.name c.address } := by
  simp only [insertCommittee, get_bind, ensureAbsent_bind, set_apply]

theorem putCommitteeVote_apply (voter committee : KeyId) :
    putCommitteeVote voter committee l =
      if l.committeeVotes.contains voter then .error (.duplicate (.committeeVoter voter)) l
      else .ok () { l with
        committeeVotes := l.committeeVotes.insert voter committee
        committeeVoters := l.committeeVoters.add (committee, voter) } := by
  simp only [putCommitteeVote, get_bind, ensureAbsent_bind, set_apply]

theorem removeCommitteeVote_apply (voter committee : KeyId) :
    removeCommitteeVote voter committee l =
      if l.committeeVotes.get? voter = some committee then
        .ok () { l with
          committeeVotes := l.committeeVotes.erase voter
          committeeVoters := l.committeeVoters.erase (committee, voter) }
      else .error (.notFound (.committeeVote voter committee)) l := by
  simp only [removeCommitteeVote, get_bind, ensurePresent_bind, set_apply, decide_eq_true_eq]

theorem insertBill_apply (b : Bill) :
    insertBill b l =
      if l.bills.contains b.id then .error (.duplicate (.bill b.id)) l
      else .ok () { l with
        bills := l.bills.insert b.id b
        committeeBills := l.committeeBills.add (b.committee, b.id)
        dueBills := l.dueBills.add (b.closes, b.id) } := by
  simp only [insertBill, get_bind, ensureAbsent_bind, set_apply]

theorem putBallot_apply (bill : BillId) (voter : KeyId) (choice : UInt8) :
    putBallot bill voter choice l =
      if l.ballots.contains (bill, voter) then .error (.duplicate (.ballot voter bill)) l
      else .ok () { l with
        ballots := l.ballots.insert (bill, voter) ⟨choice, none⟩
        votedBills := l.votedBills.add (voter, bill) } := by
  simp only [putBallot, get_bind, ensureAbsent_bind, set_apply]

theorem weigh_apply (bill : BillId) (voter : KeyId) (weight : UInt64) :
    weigh bill voter weight l =
      match l.ballots.get? (bill, voter) with
      | none => .error (.notFound (.ballot voter bill)) l
      | some ballot => .ok () { l with
          ballots := l.ballots.insert (bill, voter) { ballot with weight := some weight } } := by
  unfold weigh
  rw [get_bind]
  cases l.ballots.get? (bill, voter) <;> rfl

def weighed (bill : BillId) (ballots : SortedMap (BillId × KeyId) Ballot)
    (weights : List (KeyId × UInt64)) : SortedMap (BillId × KeyId) Ballot :=
  weights.foldl (fun m e => match m.get? (bill, e.1) with
    | some ballot => m.insert (bill, e.1) { ballot with weight := some e.2 }
    | none => m) ballots

/-- Votes that are all there are all weighed, and nothing else changes. -/
theorem forM_weigh (bill : BillId) (weights : List (KeyId × UInt64))
    (h : ∀ e ∈ weights, l.ballots.contains (bill, e.1) = true) :
    (weights.forM fun (voter, weight) => weigh bill voter weight) l =
      .ok () { l with ballots := weighed bill l.ballots weights } := by
  induction weights generalizing l with
  | nil => rfl
  | cons e rest ih =>
    obtain ⟨ballot, hb⟩ := SortedMap.contains_eq_true.mp (h e (by simp))
    have hw : weigh bill e.1 e.2 l = .ok () { l with
        ballots := l.ballots.insert (bill, e.1) { ballot with weight := some e.2 } } := by
      rw [weigh_apply, hb]
    rw [List.forM_eq_forM, List.forM_cons]
    refine (bind_ok hw _).trans ?_
    rw [← List.forM_eq_forM, ih]
    · simp only [weighed, List.foldl_cons, hb]
    · intro x hx
      obtain ⟨old, ho⟩ := SortedMap.contains_eq_true.mp (h x (by simp [hx]))
      rw [SortedMap.contains_eq_true, SortedMap.get?_insert]
      split
      · exact ⟨_, rfl⟩
      · exact ⟨old, ho⟩

/-- Weighing votes changes nothing but the ballots. -/
theorem keeps_weigh {γ : Type} (f : Ledger → γ) (bill : BillId)
    (hf : ∀ l ballots, f { l with ballots := ballots } = f l) (weights : List (KeyId × UInt64)) :
    Keeps f (weights.forM fun e => weigh bill e.1 e.2) := by
  refine Keeps.forM fun e _ l => ?_
  rw [weigh_apply]
  cases l.ballots.get? (bill, e.1) with
  | none => rfl
  | some ballot => exact hf l _

theorem settle_of_present {bill : BillId} {b : Bill} (s : Settlement)
    {weights : List (KeyId × UInt64)} (hb : l.bills.get? bill = some b)
    (hs : l.settlements.get? bill = none)
    (hw : ∀ e ∈ weights, l.ballots.contains (bill, e.1) = true) :
    settle bill s weights l = .ok () { l with
      ballots := weighed bill l.ballots weights
      settlements := l.settlements.insert bill s
      dueBills := l.dueBills.erase (b.closes, bill) } := by
  have hs' : l.settlements.contains bill = false := SortedMap.contains_eq_false.mpr hs
  unfold settle
  rw [get_bind]
  simp only [hb]
  rw [ensureAbsent_bind, hs']
  exact bind_ok (forM_weigh l bill weights hw) _

theorem insertName_apply (address : KeyId) (name : String) :
    insertName address name l =
      if l.names.contains address then .error (.duplicate (.nameOf address)) l
      else if l.namedKeys.contains name then .error (.duplicate (.name name)) l
      else .ok () { l with
        names := l.names.insert address name
        namedKeys := l.namedKeys.insert name address } := by
  simp only [insertName, get_bind, ensureAbsent_bind, set_apply]

theorem insertToken_apply (t : Token) :
    insertToken t l =
      if l.tokens.contains t.id then .error (.duplicate (.token t.id)) l
      else if l.tokenAddresses.contains t.address then
        .error (.duplicate (.tokenAddress t.address)) l
      else if l.tokenSymbols.contains (t.owner, t.symbol) then
        .error (.duplicate (.tokenSymbol t.symbol t.owner)) l
      else .ok () { l with
        tokens := l.tokens.insert t.id t
        tokenAddresses := l.tokenAddresses.insert t.address t.id
        tokenSymbols := l.tokenSymbols.insert (t.owner, t.symbol) t.id } := by
  simp only [insertToken, get_bind, ensureAbsent_bind, set_apply]

def withBalance (token : TokenId) (holder : KeyId) (amount : UInt64) : Ledger :=
  if amount = 0 then { l with tokenBalances := l.tokenBalances.erase (token, holder) }
  else { l with
    tokenBalances := l.tokenBalances.insert (token, holder) amount
    heldTokens := l.heldTokens.add (holder, token) }

theorem setTokenBalance_apply (token : TokenId) (holder : KeyId) (amount : UInt64) :
    setTokenBalance token holder amount l = .ok () (l.withBalance token holder amount) := rfl

theorem addLock_apply (k : TokenLock) :
    addLock k l =
      match Word.checkedAdd ((l.tokenLocks.get? ((k.token, k.holder), k.expiry)).getD 0)
        k.amount with
      | none => .error (.corrupt (.lockOverflow k.holder)) l
      | some amount => .ok () { l with
          tokenLocks := l.tokenLocks.insert ((k.token, k.holder), k.expiry) amount
          heldTokens := l.heldTokens.add (k.holder, k.token) } := by
  unfold addLock
  rw [get_bind]
  split <;> simp_all

theorem removeLock_apply (token : TokenId) (holder : KeyId) (expiry : Height) :
    removeLock token holder expiry l =
      if l.tokenLocks.contains ((token, holder), expiry) then
        .ok () { l with tokenLocks := l.tokenLocks.erase ((token, holder), expiry) }
      else .error (.notFound (.lock token holder expiry)) l := by
  simp only [removeLock, get_bind, ensurePresent_bind, set_apply]

theorem setCoinBalance_apply (address : KeyId) (amount : UInt64) :
    setCoinBalance address amount l = .ok () { l with
      coinBalances := if amount = 0 then l.coinBalances.erase address
        else l.coinBalances.insert address amount } := by
  unfold setCoinBalance
  rw [modify_apply]
  split <;> rfl

end CivicLedger.Ledger
