import CivicLedger.Proofs.Chain.Soundness
import CivicLedger.Proofs.Database.Batches
import CivicLedger.Proofs.Rules.Tally

/-!
# The chain on both stores

Blocks do the same to a ledger and to a database that holds it. Admission reads both alike, what it
admits has texts that a database can keep, and the steps of a block are made of reads and calls on
which the two agree.
-/

namespace CivicLedger

open Form

section

variable {σ τ : Type} [LedgerReads σ] [LedgerReads τ] {s : σ} {t : τ} {point : ChainPoint}
  {sender : KeyId}

theorem Alike.spendable (h : Alike s t) (token : TokenId) (holder : KeyId) (height : Height) :
    Rules.spendable s token holder height = Rules.spendable t token holder height := by
  simp only [Rules.spendable, h.tokenBalance, h.locksOf]

theorem Alike.admitDebit (h : Alike s t) (id : TokenId) (target : KeyId) (amount : UInt64) :
    Rules.admitDebit s point sender id target amount =
      Rules.admitDebit t point sender id target amount := by
  simp only [Rules.admitDebit, h.token?, h.spendable]

/-- The rules come to the same on stores that are read alike. -/
theorem Alike.assess (h : Alike s t) (op : Operation) :
    assess s point sender op = assess t point sender op := by
  unfold CivicLedger.assess
  split
  · rfl
  next hform =>
  cases op with
  | registerDelegate name =>
    have hname := (length_le_of_isName (checkName_eq_ok.mp hform)).1
    simp only [Rules.admitDelegate, h.delegate?, h.delegateNamed? name hname]
  | voteDelegates delegates =>
    have hvote : Rules.checkVote s = Rules.checkVote t := by
      funext existing delegate
      simp only [Rules.checkVote, h.delegate?]
    simp only [Rules.admitDelegateVotes, h.delegateVotesOf, hvote]
  | revokeDelegates delegates => simp only [Rules.admitDelegateRevocation, h.delegateVotesOf]
  | registerCommittee name url =>
    obtain ⟨_, hcheck, _⟩ := bind_eq_ok.mp hform
    have hname := (length_le_of_isName (checkName_eq_ok.mp hcheck)).1
    simp only [Rules.admitCommittee, h.committee?, h.committeeNamed? name hname]
  | voteCommittee committee =>
    simp only [Rules.admitCommitteeVote, Rules.requireCommittee, h.committee?, h.committeeVoteOf?]
  | revokeCommittee committee =>
    simp only [Rules.admitCommitteeRevocation, Rules.requireCommittee, h.committee?,
      h.committeeVoteOf?]
  | submitBill draft => simp only [Rules.admitBill, h.committee?, h.bill?]
  | voteBill bill choice =>
    simp only [Rules.admitBallot, h.bill?, h.settlement?, h.ballot?]
  | registerName name =>
    have hname := (length_le_of_isName (checkName_eq_ok.mp hform)).1
    simp only [Rules.admitName, h.nameOf?, h.named? name hname]
  | createToken draft =>
    simp only [Rules.admitToken, h.nameOf?, h.tokenAt?, h.tokenWithSymbol?, h.nextTokenId]
  | transferToken id target amount _ => simp only [Rules.admitTransfer, h.admitDebit]
  | lockToken id target amount expiry _ => simp only [Rules.admitLock, h.admitDebit]
  | unrecognized opcode body => rfl

end

/-- The supply holds in a store that is read like one in which it holds. -/
theorem Alike.supplyHolds {σ τ : Type} [LedgerReads σ] [LedgerReads τ] {s : σ} {t : τ}
    (h : Alike s t) (hs : SupplyHolds s) : SupplyHolds t := by
  intro id
  obtain ⟨record, holders, locks, htoken, hholders, hlocks, hsum⟩ := hs id
  refine ⟨record, holders, locks, ?_, ?_, ?_, hsum⟩
  · rw [← h.token?, htoken]
  · rw [← h.tokenHolders, hholders]
  · rw [← h.locks, hlocks]

theorem fitsText_of_size {s : String} {n : Nat} (h : s.utf8ByteSize ≤ n) (hn : n < UInt64.size) :
    FitsText s := Nat.lt_of_le_of_lt h hn

theorem Form.BillForm.fits {b : Bill} {days : UInt16}
    (h : BillForm ⟨b.title, b.detail, b.url, days, b.options⟩) : b.Fits where
  title := fitsText_of_size h.title.short (by decide)
  detail := fitsText_of_size h.detail (by decide)
  url := fitsText_of_size h.url (by decide)
  count := Nat.lt_of_le_of_lt h.count.2 (by decide)
  options o ho := fitsText_of_size (h.options o ho).short (by decide)

namespace Database

open Chain Program

theorem agree_tokenBalance (token : TokenId) (holder : KeyId) :
    Agree Mirrors (Step.read (LedgerReads.tokenBalance · token holder))
      (Step.read (LedgerReads.tokenBalance · token holder)) :=
  .read fun _ _ h => h.alike.tokenBalance token holder

theorem agree_unlock (d : TokenDebit) (available : UInt64) (k : TokenLock) :
    Agree Mirrors (unlock d available k) (unlock d available k) := by
  refine (Agree.consistent (agree_removeLock k.token k.holder k.expiry)).bind fun _ => ?_
  cases Word.checkedAdd available k.amount with
  | some sum => exact .pure _
  | none => exact .throw _

theorem agree_withdraw (d : TokenDebit) : Agree Mirrors (withdraw d) (withdraw d) := by
  refine (agree_tokenBalance d.token d.source).bind fun available => ?_
  refine (Agree.foldlM (fun a k _ => agree_unlock d a k) available).bind fun available => ?_
  cases Word.checkedSub available d.amount with
  | some remaining =>
    exact Agree.consistent (agree_setTokenBalance d.token d.source remaining)
  | none => exact .throw _

theorem agree_credit (d : TokenDebit) : Agree Mirrors (credit d) (credit d) := by
  refine (agree_tokenBalance d.token d.target).bind fun balance => ?_
  cases Word.checkedAdd balance d.amount with
  | some sum => exact Agree.consistent (agree_setTokenBalance d.token d.target sum)
  | none => exact .throw _

/-- Effects of the form that is asked of operations do the same on both stores. -/
theorem agree_perform {e : Effect} (h : e.Formed) :
    Agree Mirrors (perform e : Step Ledger Unit) (perform e : Step Database Unit) := by
  cases e with
  | registerDelegate d =>
    have hname := length_le_of_isName h
    have hfits : (Call.insertDelegate d).Fits := ⟨hname.1, Nat.le_trans hname.2 (by decide)⟩
    exact Agree.consistent (agree_call_of_calm hfits rfl)
  | voteDelegates voter delegates =>
    exact .forM fun d _ => .consistent (agree_addDelegateVote voter d)
  | revokeDelegates voter delegates =>
    exact .forM fun d _ => .consistent (agree_removeDelegateVote voter d)
  | registerCommittee c =>
    have hname := length_le_of_isName h.1
    have hfits : (Call.insertCommittee c).Fits :=
      ⟨hname.1, Nat.le_trans hname.2 (by decide), fitsText_of_size h.2 (by decide)⟩
    exact Agree.consistent (agree_call_of_calm hfits rfl)
  | voteCommittee voter committee =>
    exact Agree.consistent (agree_putCommitteeVote voter committee)
  | revokeCommittee voter committee =>
    exact Agree.consistent (agree_removeCommitteeVote voter committee)
  | submitBill b =>
    obtain ⟨_, hform, _⟩ := h
    exact Agree.consistent (agree_insertBill hform.fits)
  | voteBill bill voter choice => exact Agree.consistent (agree_putBallot bill voter choice)
  | registerName address name =>
    have hname := length_le_of_isName h
    have hfits : (Call.insertName address name).Fits :=
      ⟨hname.1, Nat.le_trans hname.2 (by decide)⟩
    exact Agree.consistent (agree_call_of_calm hfits rfl)
  | createToken t =>
    have hfits : (Call.insertToken t).Fits :=
      ⟨Nat.le_trans (length_le_of_isSymbol h.symbol) (by decide),
        fitsText_of_size h.name.short (by decide)⟩
    refine (Agree.consistent (agree_call_of_calm hfits rfl)).bind fun _ => ?_
    exact Agree.consistent (agree_setTokenBalance t.id t.owner t.total)
  | transferToken d => exact (agree_withdraw d).bind fun _ => agree_credit d
  | lockToken d expiry =>
    exact (agree_withdraw d).bind fun _ => .consistent (agree_addLock _)

/-- A bill that is read from a ledger that a database holds is settled alike on both. -/
theorem agree_settleBill (b : Block) (coins : Coins) (id : BillId) :
    Agree Unrelated (settleBill b coins id) (settleBill b coins id) := by
  intro l db h
  have hbill : Step.read (LedgerReads.bill? · id) l = .ok (l.bills.get? id) l := read_of_ok rfl
  have hbill' : Step.read (LedgerReads.bill? · id) db = .ok (l.bills.get? id) db :=
    read_of_ok (h.alike.bill? id).symm
  unfold settleBill
  rw [bind_ok hbill, bind_ok hbill']
  cases hget : l.bills.get? id with
  | none => exact .error trivial
  | some bill =>
    have hfits := h.legible.bills id bill hget
    have hvotes : Agree Unrelated (Step.read (LedgerReads.ballots · id))
        (Step.read (LedgerReads.ballots · id)) :=
      (Agree.read fun _ _ hm => hm.alike.ballots id).weaken
    refine (hvotes.bind fun votes => ?_) l db h
    refine Agree.bind (.consistent (agree_settle id ?_ _)) fun _ => .pure _
    unfold Settlement.Fits settlementOf
    rw [Tally.length_totals]
    exact hfits.count

theorem agree_stored_setCursor (c : Cursor) :
    Agree Mirrors (Step.stored (LedgerEdits.setCursor c))
      (Step.stored (LedgerEdits.setCursor c)) := .stored (agree_setCursor c)

theorem agree_enter (b : Block) (coins : Coins) (cursor : Option Cursor) :
    Agree Mirrors (enter b coins cursor) (enter b coins cursor) := by
  have hdue : Agree Unrelated (Step.read (LedgerReads.billsDue · b.time))
      (Step.read (LedgerReads.billsDue · b.time)) :=
    (Agree.read fun _ _ hm => hm.alike.billsDue b.time).weaken
  refine .atomically (hdue.bind fun due => ?_)
  refine (Agree.mapM fun id _ => agree_settleBill b coins id).bind fun settled => ?_
  by_cases henters : entersBlock cursor b = true
  · simp only [henters, if_true]
    exact (agree_stored_setCursor _).weaken.bind fun _ => .pure _
  · simp only [henters]
    exact .pure _

theorem agree_process (fees : FeeSchedule) (b : Block) (tx : Tx) :
    Agree Mirrors (process fees b tx) (process fees b tx) := by
  have hoperation (op : Operation) :
      Agree Mirrors (applyOperation fees b tx op) (applyOperation fees b tx op) := by
    intro l db h
    have hassess : assess l b.point tx.sender op = assess db b.point tx.sender op :=
      h.alike.assess op
    unfold applyOperation
    by_cases hfee : tx.fee < op.minFee fees
    · simp only [hfee, if_true]
      exact .ok h
    · simp only [hfee, if_false]
      rw [bind_ok (get_apply l), bind_ok (get_apply db), ← hassess]
      cases heffect : assess l b.point tx.sender op with
      | error e =>
        cases e with
        | refused r => exact .ok h
        | store fault => exact .error h
      | ok effect =>
        have hformed := Ledger.formed_of_assess heffect
        exact ((agree_perform hformed).bind fun _ => .pure _) l db h
  unfold process
  cases Payload.decode tx.payload with
  | error fault => exact .pure _
  | ok op =>
    cases op with
    | unrecognized opcode body => exact .pure _
    | _ => exact hoperation _

theorem agree_applyTx (fees : FeeSchedule) (b : Block) (tx : Tx) :
    Agree Mirrors (applyTx fees b tx) (applyTx fees b tx) := by
  rw [applyTx_eq, applyTx_eq]
  refine .atomically ((agree_process fees b tx).bind fun outcome => ?_)
  exact (agree_stored_setCursor _).bind fun _ => .pure _

theorem agree_mapM_applyOrPass (fees : FeeSchedule) (b : Block) (cursor : Option Cursor)
    (txs : List Tx) :
    Agree Mirrors (txs.mapM (applyOrPass fees b cursor))
      (txs.mapM (applyOrPass fees b cursor)) := by
  refine .mapM fun tx _ => ?_
  unfold applyOrPass
  exact .ite (.pure _) ((agree_applyTx fees b tx).bind fun _ => .pure _)

theorem agree_applyChecked (fees : FeeSchedule) (b : Block) (coins : Coins) :
    Agree Mirrors (applyChecked fees b coins) (applyChecked fees b coins) := by
  have hbody (cursor : Option Cursor) :
      Agree Mirrors (applyBody fees b coins cursor) (applyBody fees b coins cursor) :=
    (agree_enter b coins cursor).bind fun _ =>
      (agree_mapM_applyOrPass fees b cursor b.txs).bind fun _ => .pure _
  have hcursor : Agree Mirrors (Step.read LedgerReads.cursor?) (Step.read LedgerReads.cursor?) :=
    .read fun _ _ hm => hm.alike.cursor?
  refine hcursor.bind fun cursor => ?_
  cases cursor with
  | none => exact hbody none
  | some c => exact .ite (.pure _) (hbody (some c))

/-- A block gives the same result on both stores, and the database goes on holding the ledger. -/
theorem Mirrors.apply {l : Ledger} {db : Database} (h : Mirrors l db) (fees : FeeSchedule)
    (a : Applicant) (b : Block) (coins : Coins) :
    (Chain.apply fees a b coins l).result = (Chain.apply fees a b coins db).result ∧
      (Chain.apply fees a b coins l).applicant = (Chain.apply fees a b coins db).applicant ∧
      Mirrors (Chain.apply fees a b coins l).store (Chain.apply fees a b coins db).store := by
  have hchecked := agree_applyChecked fees b coins l db h
  unfold Chain.apply
  cases check a b with
  | error fault => exact ⟨rfl, rfl, h⟩
  | ok _ =>
    simp only
    generalize applyChecked fees b coins l = r, applyChecked fees b coins db = r' at hchecked
    cases hchecked with
    | ok h' => exact ⟨rfl, rfl, h'⟩
    | error h' => exact ⟨rfl, rfl, h'⟩

/-- Transactions that a database takes, the ledger that it holds takes too. -/
theorem Mirrors.taken {fees : FeeSchedule} {b : Block} {txs : List Tx} {l : Ledger}
    {db db' : Database} (h : Mirrors l db) (ht : Taken fees b txs db db') :
    ∃ l', Taken fees b txs l l' ∧ Mirrors l' db' := by
  induction ht generalizing l with
  | nil => exact ⟨l, .nil l, h⟩
  | @cons tx _ _ _ _ _ happly _ ih =>
    obtain ⟨mid, happly', hmid⟩ := (agree_applyTx fees b tx).exists_ledger h happly
    obtain ⟨l', htaken, hm⟩ := ih hmid
    exact ⟨l', .cons happly' htaken, hm⟩

/-- What blocks lead to on a database, they lead to on a ledger that the database holds. -/
theorem exists_mirrors_of_reached {a : Applicant} {db : Database} (h : Reached opened a db) :
    ∃ l, Reached ∅ a l ∧ Mirrors l db := by
  induction h with
  | start => exact ⟨∅, .start, mirrors_opened⟩
  | anew _ ih =>
    obtain ⟨l, hl, hm⟩ := ih
    exact ⟨l, .anew hl, hm⟩
  | @block a db fees b coins _ ih =>
    obtain ⟨l, hl, hm⟩ := ih
    obtain ⟨_, happlicant, hstore⟩ := hm.apply fees a b coins
    refine ⟨_, ?_, hstore⟩
    rw [← happlicant]
    exact .block fees b coins hl

end Database

end CivicLedger
