import CivicLedger.Proofs.Ordered.Entries
import CivicLedger.Proofs.Rules.Form
import CivicLedger.Rules.Admission
import CivicLedger.State.Ledger

/-!
# What an admitted effect may rely on

The rules admit an effect only where the ledger has room for it: what it inserts is absent, what it
removes is there, and what it pays is covered by what the payer has available and has matured.
-/

namespace CivicLedger

open Admission Form

variable {α β : Type}

namespace Admission

theorem ok_bind (a : α) (f : α → Admission β) : ((.ok a : Admission α) >>= f) = f a := rfl

theorem refuse_bind (r : Refusal) (f : α → Admission β) : (refuse r >>= f) = refuse r := rfl

theorem pure_eq_ok {a b : α} : (pure a : Admission α) = .ok b ↔ a = b := by
  simp [pure, Except.pure]

/-- What a rule refuses on a condition goes on only without it. -/
theorem refuse_if_eq_ok {c : Prop} [Decidable c] {r : Refusal} {p : Admission α} {a : α} :
    (if c then refuse r else p) = .ok a ↔ ¬ c ∧ p = .ok a := by
  by_cases h : c <;> simp [h, refuse]

/-- An admission that ends in a refusal or in a value, not in a fault of the store. -/
def Decides : Admission α → Prop
  | .error (.store _) => False
  | _ => True

namespace Decides

theorem ne_fault {p : Admission α} (h : Decides p) (fault : StoreFault) :
    p ≠ .error (.store fault) := by
  rintro rfl
  exact h

theorem pure (a : α) : Decides (pure a : Admission α) := trivial

theorem refuse (r : Refusal) : Decides (Admission.refuse r : Admission α) := trivial

theorem ite {c : Prop} [Decidable c] {p q : Admission α} (hp : Decides p) (hq : Decides q) :
    Decides (if c then p else q) := by
  by_cases h : c
  · rwa [if_pos h]
  · rwa [if_neg h]

theorem bind {p : Admission α} {f : α → Admission β} (hp : Decides p) (hf : ∀ a, Decides (f a)) :
    Decides (p >>= f) := by
  cases p with
  | ok a => exact hf a
  | error e =>
    cases e with
    | refused r => trivial
    | store fault => exact hp.elim

theorem forM {f : β → Admission Unit} {l : List β} (hf : ∀ x ∈ l, Decides (f x)) :
    Decides (l.forM f) := by
  induction l with
  | nil => exact pure ()
  | cons x l ih =>
    have hl := ih fun y hy => hf y (List.mem_cons_of_mem x hy)
    exact bind (hf x List.mem_cons_self) fun _ => hl

end Decides

end Admission

def Effect.Formed : Effect → Prop
  | .registerDelegate d => isName d.name = true
  | .registerCommittee c => isName c.name = true ∧ c.url.utf8ByteSize ≤ TextField.url.limit
  | .submitBill b => ∃ days, BillForm ⟨b.title, b.detail, b.url, days, b.options⟩ ∧
      b.closes = votingEnd b.opened days
  | .registerName _ name => isName name = true
  | .createToken t => TokenForm ⟨t.symbol, t.name, t.address, t.total, t.digits⟩
  | _ => True

namespace Ledger

theorem mem_pairedWith {κ μ : Type} [KeyOrder κ] [KeyOrder μ] {s : SortedSet (κ × μ)} {k : κ}
    {x : μ} : x ∈ pairedWith s k ↔ s.contains (k, x) = true := by
  simp only [pairedWith, List.mem_map, SortedMap.contains_eq_true]
  constructor
  · rintro ⟨⟨x, u⟩, h, rfl⟩
    exact ⟨u, SortedMap.mem_within.mp h⟩
  · rintro ⟨u, h⟩
    exact ⟨(x, u), SortedMap.mem_within.mpr h, rfl⟩

structure Backed (l : Ledger) (d : TokenDebit) : Prop where
  token : ∃ t, l.tokens.get? d.token = some t
  matured : ∃ height : Height,
    d.matured = (l.locksOf d.token d.source).filter (·.isMaturedAt height)
  enough : d.amount ≤
    Rules.spendableTotal ((l.tokenBalances.get? (d.token, d.source)).getD 0) d.matured

def Admits (l : Ledger) : Effect → Prop
  | .registerDelegate d =>
    l.delegates.contains d.address = false ∧ l.delegateNames.contains d.name = false
  | .voteDelegates voter delegates =>
    delegates.Nodup ∧ ∀ d ∈ delegates, l.delegateVotes.contains (voter, d) = false
  | .revokeDelegates voter delegates =>
    delegates.Nodup ∧ ∀ d ∈ delegates, l.delegateVotes.contains (voter, d) = true
  | .registerCommittee c =>
    l.committees.contains c.address = false ∧ l.committeeNames.contains c.name = false
  | .voteCommittee voter _ => l.committeeVotes.contains voter = false
  | .revokeCommittee voter committee => l.committeeVotes.get? voter = some committee
  | .submitBill b => l.bills.contains b.id = false
  | .voteBill bill voter _ => l.ballots.contains (bill, voter) = false
  | .registerName address name =>
    l.names.contains address = false ∧ l.namedKeys.contains name = false
  | .createToken t =>
    t.id = l.nextTokenId ∧ l.tokenAddresses.contains t.address = false ∧
      l.tokenSymbols.contains (t.owner, t.symbol) = false
  | .transferToken d => l.Backed d
  | .lockToken d _ => l.Backed d

def debit (l : Ledger) (height : Height) (source : KeyId) (id : TokenId) (target : KeyId)
    (amount : UInt64) : TokenDebit :=
  ⟨id, source, target, amount, (l.locksOf id source).filter (·.isMaturedAt height)⟩

/-- What the rules admit at a point of the chain: for each operation, what they have found in the
ledger and the effect that they give it. -/
inductive Admitted (l : Ledger) (point : ChainPoint) (sender : KeyId) :
    Operation → Effect → Prop where
  | registerDelegate {name : String} (form : isName name = true)
    (address : l.delegates.contains sender = false)
    (free : l.delegateNames.contains name = false) :
    Admitted l point sender (.registerDelegate name)
      (.registerDelegate ⟨sender, name, point.height⟩)
  | voteDelegates {delegates : SortedSet KeyId}
    (registered : ∀ d ∈ delegates.keys, l.delegates.contains d = true)
    (fresh : ∀ d ∈ delegates.keys, l.delegateVotes.contains (sender, d) = false)
    (count : (pairedWith l.delegateVotes sender).length + delegates.keys.length ≤
      maxDelegateVotes) :
    Admitted l point sender (.voteDelegates delegates) (.voteDelegates sender delegates.keys)
  | revokeDelegates {delegates : SortedSet KeyId}
    (voted : ∀ d ∈ delegates.keys, l.delegateVotes.contains (sender, d) = true) :
    Admitted l point sender (.revokeDelegates delegates) (.revokeDelegates sender delegates.keys)
  | registerCommittee {name url : String} (form : isName name = true)
    (short : url.utf8ByteSize ≤ TextField.url.limit)
    (address : l.committees.contains sender = false)
    (free : l.committeeNames.contains name = false) :
    Admitted l point sender (.registerCommittee name url)
      (.registerCommittee ⟨sender, name, url, point.height⟩)
  | voteCommittee {committee : KeyId} (registered : l.committees.contains committee = true)
    (fresh : l.committeeVotes.contains sender = false) :
    Admitted l point sender (.voteCommittee committee) (.voteCommittee sender committee)
  | revokeCommittee {committee : KeyId} (voted : l.committeeVotes.get? sender = some committee) :
    Admitted l point sender (.revokeCommittee committee) (.revokeCommittee sender committee)
  | submitBill {d : BillDraft} (form : BillForm d) (registered : l.committees.contains sender = true)
    (fresh : l.bills.contains (.ofTitle d.title) = false) :
    Admitted l point sender (.submitBill d)
      (.submitBill ⟨.ofTitle d.title, d.title, d.detail, d.url, sender, point.time,
        votingEnd point.time d.days, d.options, point.height⟩)
  | voteBill {id : BillId} {choice : UInt8} {bill : Bill} (stored : l.bills.get? id = some bill)
    (underway : point.time < bill.closes) (unsettled : l.settlements.get? id = none)
    (offered : choice.toNat < bill.options.length)
    (fresh : l.ballots.contains (id, sender) = false) :
    Admitted l point sender (.voteBill id choice) (.voteBill id sender choice)
  | registerName {name : String} (form : isName name = true)
    (address : l.names.contains sender = false) (free : l.namedKeys.contains name = false) :
    Admitted l point sender (.registerName name) (.registerName sender name)
  | createToken {d : TokenDraft} (form : TokenForm d) (named : l.names.contains sender = true)
    (bound : l.tokenAddresses.contains d.address = false)
    (whole : d.total % (Amount.unit? d.digits).getD Word.max = 0)
    (supply : d.total / (Amount.unit? d.digits).getD Word.max ≤ maxTokenSupply)
    (free : l.tokenSymbols.contains (sender, d.symbol) = false) :
    Admitted l point sender (.createToken d)
      (.createToken ⟨l.nextTokenId, d.symbol, d.name, sender, d.address, d.total, d.digits,
        point.height⟩)
  | transferToken {id : TokenId} {target : KeyId} {amount : UInt64} {comment : String}
    (positive : amount ≠ 0) (backed : l.Backed (l.debit point.height sender id target amount)) :
    Admitted l point sender (.transferToken id target amount comment)
      (.transferToken (l.debit point.height sender id target amount))
  | lockToken {id : TokenId} {target : KeyId} {amount : UInt64} {expiry : Height} {comment : String}
    (positive : amount ≠ 0) (backed : l.Backed (l.debit point.height sender id target amount))
    (later : point.height < expiry) :
    Admitted l point sender (.lockToken id target amount expiry comment)
      (.lockToken (l.debit point.height sender id target amount) expiry)

variable {l : Ledger} {point : ChainPoint} {sender : KeyId} {effect : Effect}

theorem contains_of_isSome {κ α : Type} [KeyOrder κ] {m : SortedMap κ α} {k : κ}
    (h : ¬ (m.get? k).isNone = true) : m.contains k = true := by
  simpa [SortedMap.contains, Option.isSome_iff_ne_none] using h

theorem absent_of_isSome {κ α : Type} [KeyOrder κ] {m : SortedMap κ α} {k : κ}
    (h : ¬ (m.get? k).isSome = true) : m.contains k = false := Bool.eq_false_iff.mpr h

theorem admitted_delegateVotes {delegates : SortedSet KeyId}
    (h : Rules.admitDelegateVotes l sender delegates.keys = .ok effect) :
    l.Admitted point sender (.voteDelegates delegates) effect := by
  simp only [Rules.admitDelegateVotes, LedgerReads.delegateVotesOf, Admission.read, ok_bind,
    refuse_bind, refuse_if_eq_ok, pure_eq_ok, bind_eq_ok] at h
  obtain ⟨⟨⟩, hvotes, hcount, rfl⟩ := h
  have hvote : ∀ d ∈ delegates.keys, l.delegates.contains d = true ∧
      l.delegateVotes.contains (sender, d) = false := by
    intro d hd
    have hcheck := ok_of_forM hvotes hd
    simp only [Rules.checkVote, LedgerReads.delegate?, Admission.read, ok_bind, refuse_bind,
      refuse_if_eq_ok] at hcheck
    exact ⟨contains_of_isSome hcheck.1,
      Bool.eq_false_iff.mpr fun hc => hcheck.2.1 (mem_pairedWith.mpr hc)⟩
  exact .voteDelegates (fun d hd => (hvote d hd).1) (fun d hd => (hvote d hd).2)
    (Nat.not_lt.mp hcount)

theorem admitted_delegateRevocation {delegates : SortedSet KeyId}
    (h : Rules.admitDelegateRevocation l sender delegates.keys = .ok effect) :
    l.Admitted point sender (.revokeDelegates delegates) effect := by
  simp only [Rules.admitDelegateRevocation, LedgerReads.delegateVotesOf, Admission.read,
    ok_bind] at h
  split at h
  · cases h
  next hfind =>
  rw [pure_eq_ok] at h
  subst h
  refine .revokeDelegates fun d hd => mem_pairedWith.mp ?_
  simpa using List.find?_eq_none.mp hfind d hd

theorem admitted_ballot {id : BillId} {choice : UInt8}
    (h : Rules.admitBallot l point sender id choice = .ok effect) :
    l.Admitted point sender (.voteBill id choice) effect := by
  simp only [Rules.admitBallot, LedgerReads.bill?, LedgerReads.settlement?, LedgerReads.ballot?,
    Admission.read, ok_bind] at h
  split at h
  · cases h
  next bill hbill =>
  simp only [refuse_bind, refuse_if_eq_ok, pure_eq_ok] at h
  obtain ⟨hopen, hunsettled, hchoice, hballot, rfl⟩ := h
  exact .voteBill hbill (UInt64.not_le.mp fun hle => hopen (decide_eq_true hle))
    (SortedMap.contains_eq_false.mp (absent_of_isSome hunsettled)) (Nat.not_le.mp hchoice)
    (absent_of_isSome hballot)

theorem admitted_token {d : TokenDraft} (form : TokenForm d)
    (h : Rules.admitToken l point sender d = .ok effect) :
    l.Admitted point sender (.createToken d) effect := by
  simp only [Rules.admitToken, LedgerReads.nameOf?, LedgerReads.tokenAt?,
    LedgerReads.tokenWithSymbol?, LedgerReads.nextTokenId, Admission.read, ok_bind, refuse_bind,
    refuse_if_eq_ok, pure_eq_ok] at h
  obtain ⟨hnamed, haddress, hwhole, hsupply, hsymbol, rfl⟩ := h
  exact .createToken form (contains_of_isSome hnamed) (absent_of_isSome haddress)
    (Classical.not_not.mp hwhole) (UInt64.not_lt.mp hsupply) (absent_of_isSome hsymbol)

theorem backed_of_debit {id : TokenId} {target : KeyId} {amount : UInt64} {d : TokenDebit}
    (h : Rules.admitDebit l point sender id target amount = .ok d) :
    d = l.debit point.height sender id target amount ∧ l.Backed d := by
  simp only [Rules.admitDebit, LedgerReads.token?, Admission.read, ok_bind] at h
  split at h
  · cases h
  next t ht =>
  have hspend : Rules.spendable l id sender point.height =
      .ok ((l.tokenBalances.get? (id, sender)).getD 0,
        (l.locksOf id sender).filter (·.isMaturedAt point.height)) := rfl
  simp only [hspend, ok_bind, refuse_bind, refuse_if_eq_ok, pure_eq_ok] at h
  obtain ⟨_, henough, rfl⟩ := h
  exact ⟨rfl, ⟨t, ht⟩, ⟨point.height, rfl⟩, UInt64.not_lt.mp henough⟩

/-- The rules admit nothing else. -/
theorem admitted_of_assess {op : Operation} (h : assess l point sender op = .ok effect) :
    l.Admitted point sender op effect := by
  unfold assess at h
  split at h
  · cases h
  next hform =>
  cases op with
  | registerDelegate name =>
    simp only [Rules.admitDelegate, LedgerReads.delegate?, LedgerReads.delegateNamed?,
      Admission.read, ok_bind, refuse_bind, refuse_if_eq_ok, pure_eq_ok] at h
    obtain ⟨haddress, hname, rfl⟩ := h
    exact .registerDelegate (checkName_eq_ok.mp hform) (absent_of_isSome haddress)
      (absent_of_isSome hname)
  | voteDelegates delegates => exact admitted_delegateVotes h
  | revokeDelegates delegates => exact admitted_delegateRevocation h
  | registerCommittee name url =>
    obtain ⟨_, hcheck, hurl⟩ := bind_eq_ok.mp hform
    simp only [Rules.admitCommittee, LedgerReads.committee?, LedgerReads.committeeNamed?,
      Admission.read, ok_bind, refuse_bind, refuse_if_eq_ok, pure_eq_ok] at h
    obtain ⟨haddress, hname, rfl⟩ := h
    exact .registerCommittee (checkName_eq_ok.mp hcheck) (checkLength_eq_ok.mp hurl)
      (absent_of_isSome haddress) (absent_of_isSome hname)
  | voteCommittee committee =>
    simp only [Rules.admitCommitteeVote, Rules.requireCommittee, LedgerReads.committee?,
      LedgerReads.committeeVoteOf?, Admission.read, ok_bind, refuse_bind, refuse_if_eq_ok,
      pure_eq_ok, bind_eq_ok] at h
    obtain ⟨⟨⟩, ⟨hregistered, _⟩, hvote, rfl⟩ := h
    exact .voteCommittee (contains_of_isSome hregistered) (absent_of_isSome hvote)
  | revokeCommittee committee =>
    simp only [Rules.admitCommitteeRevocation, LedgerReads.committeeVoteOf?, Admission.read,
      ok_bind, refuse_bind, refuse_if_eq_ok, pure_eq_ok, bind_eq_ok] at h
    obtain ⟨⟨⟩, _, hvote, rfl⟩ := h
    exact .revokeCommittee (Classical.not_not.mp hvote)
  | submitBill draft =>
    simp only [Rules.admitBill, LedgerReads.committee?, LedgerReads.bill?, Admission.read, ok_bind,
      refuse_bind, refuse_if_eq_ok, pure_eq_ok] at h
    obtain ⟨hregistered, hbill, rfl⟩ := h
    exact .submitBill (billForm_of_checkBill hform) (contains_of_isSome hregistered)
      (absent_of_isSome hbill)
  | voteBill bill choice => exact admitted_ballot h
  | registerName name =>
    simp only [Rules.admitName, LedgerReads.nameOf?, LedgerReads.named?, Admission.read, ok_bind,
      refuse_bind, refuse_if_eq_ok, pure_eq_ok] at h
    obtain ⟨haddress, hname, rfl⟩ := h
    exact .registerName (checkName_eq_ok.mp hform) (absent_of_isSome haddress)
      (absent_of_isSome hname)
  | createToken draft => exact admitted_token (tokenForm_of_checkToken hform) h
  | transferToken id target amount comment =>
    simp only [Rules.admitTransfer, bind_eq_ok, pure_eq_ok] at h
    obtain ⟨d, hd, rfl⟩ := h
    obtain ⟨rfl, hbacked⟩ := backed_of_debit hd
    exact .transferToken (amount_of_checkPayment hform) hbacked
  | lockToken id target amount expiry comment =>
    simp only [Rules.admitLock, refuse_bind, refuse_if_eq_ok, bind_eq_ok, pure_eq_ok] at h
    obtain ⟨hlater, d, hd, rfl⟩ := h
    obtain ⟨rfl, hbacked⟩ := backed_of_debit hd
    exact .lockToken (amount_of_checkPayment hform) hbacked (UInt64.not_le.mp hlater)
  | unrecognized opcode body => cases h

/-- The rules admit only what the ledger has room for. -/
theorem admits_of_assess {op : Operation} (h : assess l point sender op = .ok effect) :
    l.Admits effect := by
  cases admitted_of_assess h with
  | registerDelegate _ address free => exact ⟨address, free⟩
  | voteDelegates _ fresh _ => exact ⟨SortedMap.keys_nodup _, fresh⟩
  | revokeDelegates voted => exact ⟨SortedMap.keys_nodup _, voted⟩
  | registerCommittee _ _ address free => exact ⟨address, free⟩
  | voteCommittee _ fresh => exact fresh
  | revokeCommittee voted => exact voted
  | submitBill _ _ fresh => exact fresh
  | voteBill _ _ _ _ fresh => exact fresh
  | registerName _ address free => exact ⟨address, free⟩
  | createToken _ _ bound _ _ free => exact ⟨rfl, bound, free⟩
  | transferToken _ backed => exact backed
  | lockToken _ backed _ => exact backed

/-- What the rules admit is of the operation's kind. -/
theorem Admitted.kind {op : Operation} (h : l.Admitted point sender op effect) :
    op.kind? = some effect.kind := by
  cases h <;> rfl

theorem formed_of_assess {op : Operation} (h : assess l point sender op = .ok effect) :
    effect.Formed := by
  cases admitted_of_assess h with
  | registerDelegate form _ _ => exact form
  | registerCommittee form short _ _ => exact ⟨form, short⟩
  | submitBill form _ _ => exact ⟨_, form, rfl⟩
  | registerName form _ _ => exact form
  | createToken form _ _ _ _ _ => exact form
  | _ => trivial

theorem decides_debit {id : TokenId} {target : KeyId} {amount : UInt64} :
    Decides (Rules.admitDebit l point sender id target amount) := by
  have hspend : Rules.spendable l id sender point.height =
      .ok ((l.tokenBalances.get? (id, sender)).getD 0,
        (l.locksOf id sender).filter (·.isMaturedAt point.height)) := rfl
  simp only [Rules.admitDebit, LedgerReads.token?, hspend, Admission.read, ok_bind, refuse_bind]
  split
  · exact .refuse _
  · exact .ite (.refuse _) (.ite (.refuse _) (.pure _))

theorem decides_delegateVotes {delegates : List KeyId} :
    Decides (Rules.admitDelegateVotes l sender delegates) := by
  simp only [Rules.admitDelegateVotes, LedgerReads.delegateVotesOf, Admission.read, ok_bind,
    refuse_bind]
  refine .bind (.forM fun d _ => ?_) fun _ => .ite (.refuse _) (.pure _)
  simp only [Rules.checkVote, LedgerReads.delegate?, Admission.read, ok_bind, refuse_bind]
  exact .ite (.refuse _) (.ite (.refuse _) (.pure _))

theorem decides_ballot {bill : BillId} {choice : UInt8} :
    Decides (Rules.admitBallot l point sender bill choice) := by
  simp only [Rules.admitBallot, LedgerReads.bill?, LedgerReads.settlement?, LedgerReads.ballot?,
    Admission.read, ok_bind, refuse_bind]
  split
  · exact .refuse _
  · exact .ite (.refuse _) (.ite (.refuse _) (.ite (.refuse _) (.ite (.refuse _) (.pure _))))

theorem decides_committee {committee : KeyId} :
    Decides (Rules.requireCommittee l committee) := by
  simp only [Rules.requireCommittee, LedgerReads.committee?, Admission.read, ok_bind]
  exact .ite (.refuse _) (.pure _)

/-- From a ledger in memory the rules always come to an answer. -/
theorem decides_assess (op : Operation) : Decides (assess l point sender op) := by
  unfold assess
  split
  · exact .refuse _
  cases op with
  | registerDelegate name =>
    simp only [Rules.admitDelegate, LedgerReads.delegate?, LedgerReads.delegateNamed?,
      Admission.read, ok_bind, refuse_bind]
    exact .ite (.refuse _) (.ite (.refuse _) (.pure _))
  | voteDelegates delegates => exact decides_delegateVotes
  | revokeDelegates delegates =>
    simp only [Rules.admitDelegateRevocation, LedgerReads.delegateVotesOf, Admission.read, ok_bind]
    split
    · exact .refuse _
    · exact .pure _
  | registerCommittee name url =>
    simp only [Rules.admitCommittee, LedgerReads.committee?, LedgerReads.committeeNamed?,
      Admission.read, ok_bind, refuse_bind]
    exact .ite (.refuse _) (.ite (.refuse _) (.pure _))
  | voteCommittee committee =>
    simp only [Rules.admitCommitteeVote, LedgerReads.committeeVoteOf?, Admission.read, ok_bind]
    exact .bind decides_committee fun _ => .ite (.refuse _) (.pure _)
  | revokeCommittee committee =>
    simp only [Rules.admitCommitteeRevocation, LedgerReads.committeeVoteOf?, Admission.read,
      ok_bind]
    exact .bind decides_committee fun _ => .ite (.refuse _) (.pure _)
  | submitBill draft =>
    simp only [Rules.admitBill, LedgerReads.committee?, LedgerReads.bill?, Admission.read, ok_bind,
      refuse_bind]
    exact .ite (.refuse _) (.ite (.refuse _) (.pure _))
  | voteBill bill choice => exact decides_ballot
  | registerName name =>
    simp only [Rules.admitName, LedgerReads.nameOf?, LedgerReads.named?, Admission.read, ok_bind,
      refuse_bind]
    exact .ite (.refuse _) (.ite (.refuse _) (.pure _))
  | createToken draft =>
    simp only [Rules.admitToken, LedgerReads.nameOf?, LedgerReads.tokenAt?,
      LedgerReads.tokenWithSymbol?, LedgerReads.nextTokenId, Admission.read, ok_bind, refuse_bind]
    exact .ite (.refuse _) (.ite (.refuse _) (.ite (.refuse _) (.ite (.refuse _)
      (.ite (.refuse _) (.pure _)))))
  | transferToken id target amount _ => exact decides_debit.bind fun _ => .pure _
  | lockToken id target amount expiry _ =>
    simp only [Rules.admitLock, refuse_bind]
    exact .ite (.refuse _) (decides_debit.bind fun _ => .pure _)
  | unrecognized opcode body => exact .refuse _

theorem lt_votingEnd {time : Timestamp} {days : UInt16} (ht : time < Word.max) (hd : days ≠ 0) :
    time < votingEnd time days := by
  have hpos : 0 < days.toNat := Nat.pos_of_ne_zero fun h => hd (UInt16.toNat_inj.mp h)
  have hlength : (days.toUInt64 * secondsPerDay).toNat = days.toNat * 86400 := by
    have hlt := days.toNat_lt
    have hday : secondsPerDay.toNat = 86400 := rfl
    rw [UInt64.toNat_mul, UInt16.toNat_toUInt64, hday, Nat.mod_eq_of_lt (by omega)]
  have hsum := Word.toNat_satAdd time (days.toUInt64 * secondsPerDay)
  have hmax : Word.max.toNat = UInt64.size - 1 := rfl
  rw [UInt64.lt_iff_toNat_lt] at ht ⊢
  unfold votingEnd
  omega

/-- A bill that is admitted before the end of time closes later than it is submitted. -/
theorem lt_closes_of_assess {op : Operation} {b : Bill}
    (h : assess l point sender op = .ok (.submitBill b)) (ht : point.time < Word.max) :
    point.time < b.closes := by
  cases admitted_of_assess h with
  | submitBill form _ _ => exact lt_votingEnd ht form.days.1

end Ledger

end CivicLedger
