import CivicLedger.Proofs.Chain.Records
import CivicLedger.Proofs.State.Indexes
import CivicLedger.State.Inventory

/-!
# What an inventory says of a ledger

An inventory lists votes, balances and locks under the records that they belong to, and no index.
Where each of them belongs to a record that is there, and the indexes say what the tables say, an
inventory leaves open only what is not a record of the ledger: the coins, the blocks that they and
the cursor stand at, and the tokens that addresses have held in the past.
-/

namespace CivicLedger.Ledger

open SortedMap

variable {l l' : Ledger}

def inventory (l : Ledger) : Inventory where
  delegates := l.delegates.values.map fun d => (d, pairedWith l.delegateVoters d.address)
  committees := l.committees.values.map fun c => (c, pairedWith l.committeeVoters c.address)
  bills := l.bills.values.map fun b => (b, l.ballots.within b.id, l.settlements.get? b.id)
  names := l.names.entries
  tokens := l.tokens.values.map fun t => (t, l.tokenBalances.within t.id, l.locks t.id)

theorem collect_eq (l : Ledger) : Inventory.collect l = .ok l.inventory := by
  have hlist {α β : Type} (f : α → β) (as : List α) :
      (as.mapM fun a => (.ok (f a) : Except StoreFault β)) = .ok (as.map f) := List.mapM_pure
  have hdelegates := hlist (fun d : Delegate => (d, pairedWith l.delegateVoters d.address))
    l.delegates.values
  have hcommittees := hlist (fun c : Committee => (c, pairedWith l.committeeVoters c.address))
    l.committees.values
  have hbills := hlist (fun b : Bill => (b, l.ballots.within b.id, l.settlements.get? b.id))
    l.bills.values
  have htokens := hlist (fun t : Token => (t, l.tokenBalances.within t.id, l.locks t.id))
    l.tokens.values
  simp only [Inventory.collect, LedgerReads.delegates, LedgerReads.delegateVoters,
    LedgerReads.committees, LedgerReads.committeeVoters, LedgerReads.bills, LedgerReads.ballots,
    LedgerReads.settlement?, LedgerReads.names, LedgerReads.tokens, LedgerReads.tokenHolders,
    LedgerReads.locks, bind, Except.bind, pure, Except.pure, hdelegates, hcommittees, hbills,
    htokens]
  rfl

/-- The ledger without its coins, the blocks that it has come to, and what has been held. -/
def records (l : Ledger) : Ledger :=
  { l with heldTokens := ∅, coinBalances := ∅, synced := none, cursor := none }

structure Coherent (l : Ledger) : Prop where
  indexed : l.Indexed
  lawful : l.Lawful
  sound : l.Sound

/-- Lists of records with what belongs to each of them are equal in both. -/
theorem eq_of_map_pair {α β : Type} {as bs : List α} {f g : α → β}
    (h : as.map (fun a => (a, f a)) = bs.map fun a => (a, g a)) :
    as = bs ∧ ∀ a ∈ as, f a = g a := by
  have hfst : as = bs := by simpa [Function.comp_def] using congrArg (List.map Prod.fst) h
  subst hfst
  refine ⟨rfl, fun a ha => ?_⟩
  exact (Prod.mk.inj (List.map_inj_left.mp h a ha)).2

theorem mem_locks {id : TokenId} {k : TokenLock} :
    k ∈ l.locks id ↔ k.token = id ∧ l.tokenLocks.get? k.key = some k.amount := by
  simp only [locks, List.mem_filterMap, get?_eq_some_iff]
  constructor
  · rintro ⟨e, he, hk⟩
    split at hk
    · next hid =>
      cases hk
      exact ⟨rfl, hid ▸ he⟩
    · cases hk
  · rintro ⟨rfl, he⟩
    exact ⟨_, he, if_pos rfl⟩

theorem part_eq_of_pairedWith {κ μ : Type} [KeyOrder κ] [KeyOrder μ] {s t : SortedSet (κ × μ)}
    {k : κ} (h : pairedWith s k = pairedWith t k) : s.part k = t.part k := by
  refine ext_contains fun x => Bool.eq_iff_iff.mpr ?_
  have hpart (s : SortedSet (κ × μ)) : (s.part k).contains x = true ↔ x ∈ pairedWith s k := by
    rw [mem_pairedWith, contains, get?_part, contains]
  rw [hpart, hpart, h]

theorem part_eq_of_within {κ μ α : Type} [KeyOrder κ] [KeyOrder μ] {m n : SortedMap (κ × μ) α}
    {k : κ} (h : m.within k = n.within k) : m.part k = n.part k := by
  refine ext fun x => Option.ext fun a => ?_
  rw [get?_part, get?_part, ← mem_within, ← mem_within, h]

namespace Coherent

section

variable (h : l.Coherent)

include h

theorem voted_delegate (k : KeyId × KeyId) (a : Unit) (hk : l.delegateVoters.get? k = some a) :
    ∃ d, l.delegates.get? k.1 = some d := by
  have hvoter := (h.indexed.delegateVoters k.2 k.1).mp (contains_eq_true.mpr ⟨a, hk⟩)
  exact contains_eq_true.mp (h.lawful.votes (k.2, k.1) hvoter)

theorem voted_committee (k : KeyId × KeyId) (a : Unit) (hk : l.committeeVoters.get? k = some a) :
    ∃ c, l.committees.get? k.1 = some c := by
  obtain ⟨c, hvote, rfl⟩ := (h.indexed.committeeVoters k.1 k.2).mp (contains_eq_true.mpr ⟨a, hk⟩)
  exact contains_eq_true.mp (h.lawful.committeeVotes k.2 _ hvote)

theorem voted_bill (k : BillId × KeyId) (a : Ballot) (hk : l.ballots.get? k = some a) :
    ∃ bill, l.bills.get? k.1 = some bill := by
  obtain ⟨bill, hb, _⟩ := h.lawful.ballots k a hk
  exact ⟨bill, hb⟩

theorem settlement_of_absent {id : BillId} (hb : l.bills.get? id = none) :
    l.settlements.get? id = none := by
  refine get?_of_not_contains fun hs => ?_
  rw [← contains_eq_false, h.indexed.settlements id hs] at hb
  cases hb

variable (he : l.inventory = l'.inventory)

include he

theorem delegate_eq {a : KeyId} {d : Delegate} (hd : l.delegates.get? a = some d) :
    l.delegateVoters.part a = l'.delegateVoters.part a := by
  have hsame := (eq_of_map_pair (congrArg Inventory.delegates he)).2 d (mem_values.mpr ⟨a, hd⟩)
  rw [h.indexed.delegates a d hd] at hsame
  exact part_eq_of_pairedWith hsame

theorem committee_eq {a : KeyId} {c : Committee} (hc : l.committees.get? a = some c) :
    l.committeeVoters.part a = l'.committeeVoters.part a := by
  have hsame := (eq_of_map_pair (congrArg Inventory.committees he)).2 c (mem_values.mpr ⟨a, hc⟩)
  rw [h.indexed.committees a c hc] at hsame
  exact part_eq_of_pairedWith hsame

theorem bill_eq {id : BillId} {bill : Bill} (hb : l.bills.get? id = some bill) :
    l.ballots.part id = l'.ballots.part id ∧ l.settlements.get? id = l'.settlements.get? id := by
  have hsame := (eq_of_map_pair (congrArg Inventory.bills he)).2 bill (mem_values.mpr ⟨id, hb⟩)
  rw [h.indexed.bills id bill hb] at hsame
  exact (Prod.mk.inj hsame).imp_left part_eq_of_within

theorem token_eq {id : TokenId} {token : Token} (ht : l.tokens.get? id = some token) :
    l.tokenBalances.part id = l'.tokenBalances.part id ∧ l.locks id = l'.locks id := by
  have hsame := (eq_of_map_pair (congrArg Inventory.tokens he)).2 token (mem_values.mpr ⟨id, ht⟩)
  rw [h.indexed.tokens id token ht] at hsame
  exact (Prod.mk.inj hsame).imp_left part_eq_of_within

end

variable (h : l.Coherent) (h' : l'.Coherent) (he : l.inventory = l'.inventory)

include h h' he

theorem delegates_eq : l.delegates = l'.delegates :=
  h.indexed.delegates.ext h'.indexed.delegates (eq_of_map_pair (congrArg Inventory.delegates he)).1

theorem committees_eq : l.committees = l'.committees :=
  h.indexed.committees.ext h'.indexed.committees
    (eq_of_map_pair (congrArg Inventory.committees he)).1

theorem bills_eq : l.bills = l'.bills :=
  h.indexed.bills.ext h'.indexed.bills (eq_of_map_pair (congrArg Inventory.bills he)).1

theorem tokens_eq : l.tokens = l'.tokens :=
  h.indexed.tokens.ext h'.indexed.tokens (eq_of_map_pair (congrArg Inventory.tokens he)).1

/-- Every vote is listed, since it is for a delegate that is there. -/
theorem delegateVoters_eq : l.delegateVoters = l'.delegateVoters := by
  have hdelegates := delegates_eq h h' he
  refine ext_parts (P := fun a => ∃ d, l.delegates.get? a = some d) h.voted_delegate
    (fun k a hk => hdelegates ▸ h'.voted_delegate k a hk) ?_
  rintro a ⟨d, hd⟩
  exact h.delegate_eq he hd

theorem committeeVoters_eq : l.committeeVoters = l'.committeeVoters := by
  have hcommittees := committees_eq h h' he
  refine ext_parts (P := fun a => ∃ c, l.committees.get? a = some c) h.voted_committee
    (fun k a hk => hcommittees ▸ h'.voted_committee k a hk) ?_
  rintro a ⟨c, hc⟩
  exact h.committee_eq he hc

theorem ballots_eq : l.ballots = l'.ballots := by
  have hbills := bills_eq h h' he
  refine ext_parts (P := fun id => ∃ bill, l.bills.get? id = some bill) h.voted_bill
    (fun k a hk => hbills ▸ h'.voted_bill k a hk) ?_
  rintro id ⟨bill, hb⟩
  exact (h.bill_eq he hb).1

theorem settlements_eq : l.settlements = l'.settlements := by
  refine ext fun id => ?_
  cases hb : l.bills.get? id with
  | some bill => exact (h.bill_eq he hb).2
  | none => rw [h.settlement_of_absent hb, h'.settlement_of_absent (bills_eq h h' he ▸ hb)]

theorem tokenBalances_eq : l.tokenBalances = l'.tokenBalances := by
  have htokens := tokens_eq h h' he
  refine ext_parts (P := fun id => ∃ t, l.tokens.get? id = some t) h.sound.conserved.balances
    (fun k a hk => htokens ▸ h'.sound.conserved.balances k a hk) ?_
  rintro id ⟨token, ht⟩
  exact (h.token_eq he ht).1

theorem tokenLocks_eq : l.tokenLocks = l'.tokenLocks := by
  have hlisted {m : Ledger} (k : (TokenId × KeyId) × Height) (a : UInt64) :
      m.tokenLocks.get? k = some a ↔ (⟨k.1.1, k.1.2, k.2, a⟩ : TokenLock) ∈ m.locks k.1.1 := by
    rw [mem_locks]
    exact (and_iff_right rfl).symm
  refine ext fun k => Option.ext fun a => ?_
  constructor
  · intro hk
    obtain ⟨token, ht⟩ := h.sound.conserved.locks k a hk
    rw [hlisted] at hk ⊢
    rwa [← (h.token_eq he ht).2]
  · intro hk
    obtain ⟨token, ht⟩ := h'.sound.conserved.locks k a hk
    rw [hlisted] at hk ⊢
    rwa [← (h'.token_eq he.symm ht).2]

theorem dueBills_eq : l.dueBills = l'.dueBills := by
  refine ext_contains fun k => Bool.eq_iff_iff.mpr ?_
  rw [h.indexed.dueBills k.1 k.2, h'.indexed.dueBills k.1 k.2, bills_eq h h' he,
    settlements_eq h h' he]

/-- Ledgers of one inventory have the same records, and the same indexes of them. -/
theorem records_eq : l.records = l'.records := by
  have hdelegates := delegates_eq h h' he
  have hcommittees := committees_eq h h' he
  have hbills := bills_eq h h' he
  have htokens := tokens_eq h h' he
  have hdelegateVoters := delegateVoters_eq h h' he
  have hcommitteeVoters := committeeVoters_eq h h' he
  have hballots := ballots_eq h h' he
  have hnames : l.names = l'.names := by
    refine ext fun k => Option.ext fun a => ?_
    rw [get?_eq_some_iff, get?_eq_some_iff, show l.names.entries = l'.names.entries from
      congrArg Inventory.names he]
  have hdelegateVotes : l.delegateVotes = l'.delegateVotes :=
    h.indexed.delegateVoters.unique_set (hdelegateVoters ▸ h'.indexed.delegateVoters)
  have hcommitteeVotes : l.committeeVotes = l'.committeeVotes :=
    h.indexed.committeeVoters.unique_map (hcommitteeVoters ▸ h'.indexed.committeeVoters)
  have hi := h.indexed
  have hi' := h'.indexed
  simp only [records, Ledger.mk.injEq]
  exact ⟨hdelegates, hi.delegateNames.unique (hdelegates ▸ hi'.delegateNames), hdelegateVotes,
    hdelegateVoters, hcommittees, hi.committeeNames.unique (hcommittees ▸ hi'.committeeNames),
    hcommitteeVotes, hcommitteeVoters, hbills,
    hi.committeeBills.unique (hbills ▸ hi'.committeeBills), hballots,
    hi.votedBills.unique (hballots ▸ hi'.votedBills), settlements_eq h h' he,
    dueBills_eq h h' he, hnames, hi.namedKeys.unique (hnames ▸ hi'.namedKeys), htokens,
    hi.tokenAddresses.unique (htokens ▸ hi'.tokenAddresses),
    hi.tokenSymbols.unique (htokens ▸ hi'.tokenSymbols), tokenBalances_eq h h' he,
    tokenLocks_eq h h' he, trivial, trivial, trivial, trivial⟩

end Coherent

end CivicLedger.Ledger
