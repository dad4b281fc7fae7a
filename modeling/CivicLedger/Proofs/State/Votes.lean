import CivicLedger.Proofs.Chain.Enact

/-!
# Votes of one address

A vote changes tables only at the keys of its voter, and what it puts there depends on what the
voter has there. Votes of different addresses therefore come to the same in either order, and
neither changes anything that the rules look at when they judge the other.
-/

namespace CivicLedger

namespace SortedMap

variable {κ α ι : Type} [KeyOrder κ] {P Q : κ → Prop} {f g : SortedMap κ α → SortedMap κ α}

/-- A change of a map that has to do with the keys in `P` alone. -/
structure Within (P : κ → Prop) (f : SortedMap κ α → SortedMap κ α) : Prop where
  spares : ∀ m k, ¬ P k → (f m).get? k = m.get? k
  depends : ∀ m n, (∀ k, P k → m.get? k = n.get? k) → ∀ k, P k → (f m).get? k = (f n).get? k

namespace Within

theorem refl : Within P (fun m : SortedMap κ α => m) where
  spares _ _ _ := rfl
  depends _ _ h := h

theorem comp (hf : Within P f) (hg : Within P g) : Within P fun m => g (f m) where
  spares m k hk := (hg.spares _ k hk).trans (hf.spares m k hk)
  depends m n h := hg.depends _ _ (hf.depends m n h)

theorem foldl {step : SortedMap κ α → ι → SortedMap κ α} (h : ∀ i, Within P fun m => step m i)
    (is : List ι) : Within P fun m => is.foldl step m := by
  induction is with
  | nil => exact .refl
  | cons i rest ih => exact (h i).comp ih

/-- Changes that have to do with different keys come to the same in either order. -/
theorem comm (hf : Within P f) (hg : Within Q g) (hdisjoint : ∀ k, P k → ¬ Q k)
    (m : SortedMap κ α) : f (g m) = g (f m) := by
  have hgm : ∀ k, P k → (g m).get? k = m.get? k := fun k hp => hg.spares m k (hdisjoint k hp)
  have hfm : ∀ k, Q k → (f m).get? k = m.get? k :=
    fun k hq => hf.spares m k fun hp => hdisjoint k hp hq
  refine ext fun k => ?_
  by_cases hp : P k
  · rw [hf.depends _ _ hgm k hp, hg.spares _ k (hdisjoint k hp)]
  · rw [hf.spares _ k hp]
    by_cases hq : Q k
    · rw [hg.depends _ _ hfm k hq]
    · rw [hg.spares _ k hq, hg.spares _ k hq, hf.spares m k hp]

variable [DecidableEq κ]

theorem insert {k : κ} {a : α} (hk : P k) : Within P fun m => m.insert k a where
  spares m x hx := get?_insert_ne m a fun e => hx (e ▸ hk)
  depends m n h x hx := by rw [get?_insert, get?_insert, h x hx]

theorem add {k : κ} (hk : P k) : Within P fun s : SortedSet κ => s.add k := insert hk

theorem erase {k : κ} (hk : P k) : Within P fun m : SortedMap κ α => m.erase k where
  spares m x hx := get?_erase_ne m fun e => hx (e ▸ hk)
  depends m n h x hx := by rw [get?_erase, get?_erase, h x hx]

end Within

end SortedMap

open SortedMap

structure Recast where
  delegateVotes : SortedSet (KeyId × KeyId) → SortedSet (KeyId × KeyId) := fun s => s
  delegateVoters : SortedSet (KeyId × KeyId) → SortedSet (KeyId × KeyId) := fun s => s
  committeeVotes : SortedMap KeyId KeyId → SortedMap KeyId KeyId := fun m => m
  committeeVoters : SortedSet (KeyId × KeyId) → SortedSet (KeyId × KeyId) := fun s => s
  ballots : SortedMap (BillId × KeyId) Ballot → SortedMap (BillId × KeyId) Ballot := fun m => m
  votedBills : SortedSet (KeyId × BillId) → SortedSet (KeyId × BillId) := fun s => s

namespace Recast

def apply (r : Recast) (l : Ledger) : Ledger :=
  { l with
    delegateVotes := r.delegateVotes l.delegateVotes
    delegateVoters := r.delegateVoters l.delegateVoters
    committeeVotes := r.committeeVotes l.committeeVotes
    committeeVoters := r.committeeVoters l.committeeVoters
    ballots := r.ballots l.ballots
    votedBills := r.votedBills l.votedBills }

def ofEffect : Effect → Recast
  | .voteDelegates voter delegates =>
    { delegateVotes := fun s => delegates.foldl (fun s d => s.add (voter, d)) s
      delegateVoters := fun s => delegates.foldl (fun s d => s.add (d, voter)) s }
  | .revokeDelegates voter delegates =>
    { delegateVotes := fun s => delegates.foldl (fun s d => s.erase (voter, d)) s
      delegateVoters := fun s => delegates.foldl (fun s d => s.erase (d, voter)) s }
  | .voteCommittee voter committee =>
    { committeeVotes := fun m => m.insert voter committee
      committeeVoters := fun s => s.add (committee, voter) }
  | .revokeCommittee voter committee =>
    { committeeVotes := fun m => m.erase voter
      committeeVoters := fun s => s.erase (committee, voter) }
  | .voteBill bill voter choice =>
    { ballots := fun m => m.insert (bill, voter) ⟨choice, none⟩
      votedBills := fun s => s.add (voter, bill) }
  | _ => {}

structure By (voter : KeyId) (r : Recast) : Prop where
  delegateVotes : Within (fun k => k.1 = voter) r.delegateVotes
  delegateVoters : Within (fun k => k.2 = voter) r.delegateVoters
  committeeVotes : Within (fun k => k = voter) r.committeeVotes
  committeeVoters : Within (fun k => k.2 = voter) r.committeeVoters
  ballots : Within (fun k => k.2 = voter) r.ballots
  votedBills : Within (fun k => k.1 = voter) r.votedBills

theorem by_idle (voter : KeyId) : ({} : Recast).By voter :=
  ⟨.refl, .refl, .refl, .refl, .refl, .refl⟩

/-- Changes that two addresses make come to the same in either order. -/
theorem By.comm {u v : KeyId} {r r' : Recast} (h : r.By u) (h' : r'.By v) (hne : u ≠ v)
    (l : Ledger) : r.apply (r'.apply l) = r'.apply (r.apply l) := by
  have hsides {κ : Type} (owner : κ → KeyId) : ∀ k, owner k = u → ¬ owner k = v :=
    fun k hu hv => hne (hu.symm.trans hv)
  unfold apply
  dsimp only
  rw [h.delegateVotes.comm h'.delegateVotes (hsides _),
    h.delegateVoters.comm h'.delegateVoters (hsides _),
    h.committeeVotes.comm h'.committeeVotes (hsides _),
    h.committeeVoters.comm h'.committeeVoters (hsides _),
    h.ballots.comm h'.ballots (hsides _), h.votedBills.comm h'.votedBills (hsides _)]

end Recast

def Operation.isVote : Operation → Bool
  | voteDelegates _ | revokeDelegates _ | voteCommittee _ | revokeCommittee _ | voteBill _ _ => true
  | _ => false

namespace Ledger

variable {l m : Ledger} {point : ChainPoint} {sender voter : KeyId} {op : Operation}
  {effect : Effect}

/-- An admitted vote does nothing but change the votes of its sender. -/
theorem Admitted.recast (h : l.Admitted point sender op effect) (hop : op.isVote = true) :
    (Recast.ofEffect effect).By sender ∧
      (∀ m : Ledger, m.enact effect = (Recast.ofEffect effect).apply m) ∧
      ∀ m : Ledger, m.HasRoom effect := by
  cases h with
  | @voteDelegates delegates =>
    refine ⟨?_, fun m => enact_voteDelegates m sender _, fun _ => trivial⟩
    exact ⟨.foldl (fun d => .add (k := (sender, d)) rfl) delegates.keys,
      .foldl (fun d => .add (k := (d, sender)) rfl) delegates.keys, .refl, .refl, .refl, .refl⟩
  | @revokeDelegates delegates =>
    refine ⟨?_, fun m => enact_revokeDelegates m sender _, fun _ => trivial⟩
    exact ⟨.foldl (fun d => .erase (k := (sender, d)) rfl) delegates.keys,
      .foldl (fun d => .erase (k := (d, sender)) rfl) delegates.keys, .refl, .refl, .refl, .refl⟩
  | @voteCommittee committee =>
    refine ⟨?_, fun _ => rfl, fun _ => trivial⟩
    exact ⟨.refl, .refl, .insert (k := sender) rfl, .add (k := (committee, sender)) rfl, .refl,
      .refl⟩
  | @revokeCommittee committee =>
    refine ⟨?_, fun _ => rfl, fun _ => trivial⟩
    exact ⟨.refl, .refl, .erase (k := sender) rfl, .erase (k := (committee, sender)) rfl, .refl,
      .refl⟩
  | @voteBill id choice =>
    refine ⟨?_, fun _ => rfl, fun _ => trivial⟩
    exact ⟨.refl, .refl, .refl, .refl, .insert (k := (id, sender)) rfl,
      .add (k := (sender, id)) rfl⟩
  | _ => cases hop

/-- Two ledgers that are alike in all that the rules look at when they judge a vote of an
address. -/
structure SeenAlike (voter : KeyId) (l m : Ledger) : Prop where
  delegates : l.delegates = m.delegates
  delegateVotes : pairedWith l.delegateVotes voter = pairedWith m.delegateVotes voter
  committees : l.committees = m.committees
  committeeVote : l.committeeVotes.get? voter = m.committeeVotes.get? voter
  bills : l.bills = m.bills
  settlements : l.settlements = m.settlements
  ballots : ∀ id, l.ballots.get? (id, voter) = m.ballots.get? (id, voter)

theorem SeenAlike.refl (voter : KeyId) (l : Ledger) : SeenAlike voter l l :=
  ⟨rfl, rfl, rfl, rfl, rfl, rfl, fun _ => rfl⟩

/-- Nobody else's votes are looked at. -/
theorem SeenAlike.of_recast {r : Recast} {other : KeyId} (h : r.By other) (hne : voter ≠ other)
    (l : Ledger) : SeenAlike voter l (r.apply l) where
  delegates := rfl
  delegateVotes := by
    have hpart : l.delegateVotes.part voter = (r.apply l).delegateVotes.part voter :=
      part_congr fun _ => (h.delegateVotes.spares _ _ hne).symm
    exact congrArg keys hpart
  committees := rfl
  committeeVote := (h.committeeVotes.spares _ _ hne).symm
  bills := rfl
  settlements := rfl
  ballots _ := (h.ballots.spares _ _ hne).symm

/-- Votes are judged alike on both. -/
theorem SeenAlike.assess (h : SeenAlike voter l m) (hop : op.isVote = true) :
    assess l point voter op = assess m point voter op := by
  have hdelegate (a : KeyId) : LedgerReads.delegate? l a = LedgerReads.delegate? m a :=
    congrArg (fun t : SortedMap KeyId Delegate => Except.ok (t.get? a)) h.delegates
  have hvotes : LedgerReads.delegateVotesOf l voter = LedgerReads.delegateVotesOf m voter :=
    congrArg Except.ok h.delegateVotes
  have hcommittee (a : KeyId) : LedgerReads.committee? l a = LedgerReads.committee? m a :=
    congrArg (fun t : SortedMap KeyId Committee => Except.ok (t.get? a)) h.committees
  have hvote : LedgerReads.committeeVoteOf? l voter = LedgerReads.committeeVoteOf? m voter :=
    congrArg Except.ok h.committeeVote
  have hbill (id : BillId) : LedgerReads.bill? l id = LedgerReads.bill? m id :=
    congrArg (fun t : SortedMap BillId Bill => Except.ok (t.get? id)) h.bills
  have hsettlement (id : BillId) : LedgerReads.settlement? l id = LedgerReads.settlement? m id :=
    congrArg (fun t : SortedMap BillId Settlement => Except.ok (t.get? id)) h.settlements
  have hballot (id : BillId) : LedgerReads.ballot? l id voter = LedgerReads.ballot? m id voter :=
    congrArg Except.ok (h.ballots id)
  unfold CivicLedger.assess
  split
  · rfl
  cases op with
  | voteDelegates delegates =>
    have hcheck : Rules.checkVote l = Rules.checkVote m := by
      funext existing delegate
      simp only [Rules.checkVote, hdelegate]
    simp only [Rules.admitDelegateVotes, hvotes, hcheck]
  | revokeDelegates delegates => simp only [Rules.admitDelegateRevocation, hvotes]
  | voteCommittee committee =>
    simp only [Rules.admitCommitteeVote, Rules.requireCommittee, hcommittee, hvote]
  | revokeCommittee committee =>
    simp only [Rules.admitCommitteeRevocation, Rules.requireCommittee, hcommittee, hvote]
  | voteBill bill choice => simp only [Rules.admitBallot, hbill, hsettlement, hballot]
  | _ => cases hop

end Ledger

end CivicLedger
