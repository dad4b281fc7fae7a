import CivicLedger.Proofs.Amount
import CivicLedger.Proofs.Chain.Visits

/-!
# What the records of a ledger say

The rules look at an operation once, when it is admitted. What they have found then of votes,
committees, bills, names, tokens and locks still holds of the records in every later state: no later
operation, settlement or payment takes it back.
-/

namespace CivicLedger

open Chain Form

structure Token.WholeSupply (t : Token) : Prop where
  digits : t.digits.toNat ≤ 8
  total : ∃ k, 1 ≤ k ∧ k ≤ 10 ^ 11 ∧ t.total.toNat = k * 10 ^ t.digits.toNat

/-- A supply that the rules admit is a number of whole units. -/
theorem wholeSupply_of_draft {d : TokenDraft} (form : TokenForm d)
    (whole : d.total % (Amount.unit? d.digits).getD Word.max = 0)
    (supply : d.total / (Amount.unit? d.digits).getD Word.max ≤ maxTokenSupply)
    {t : Token} (htotal : t.total = d.total) (hdigits : t.digits = d.digits) : t.WholeSupply := by
  have hplaces : d.digits.toNat ≤ 8 := UInt8.le_iff_toNat_le.mp form.digits
  obtain ⟨unit, hunit, hnat⟩ := Amount.unit?_eq_some form.digits
  rw [hunit, Option.getD_some] at whole supply
  have hmod : d.total.toNat % 10 ^ d.digits.toNat = 0 := by
    rw [← hnat, ← UInt64.toNat_mod, whole]
    rfl
  have hdiv : d.total.toNat / 10 ^ d.digits.toNat ≤ 10 ^ 11 := by
    have hle := UInt64.le_iff_toNat_le.mp supply
    rwa [UInt64.toNat_div, hnat] at hle
  have hexact := Nat.div_mul_cancel (Nat.dvd_of_mod_eq_zero hmod)
  refine ⟨by rwa [hdigits], d.total.toNat / 10 ^ d.digits.toNat, ?_, hdiv, ?_⟩
  · refine Nat.pos_of_ne_zero fun hzero => form.total (UInt64.toNat_inj.mp ?_)
    rw [hzero, Nat.zero_mul] at hexact
    exact hexact.symm
  · rw [htotal, hdigits, hexact]

/-- What the records in a store say of each other. -/
structure RecordsHold {σ : Type} [LedgerReads σ] (s : σ) : Prop where
  delegateVotes : ∀ voter, Yields (LedgerReads.delegateVotesOf s voter) fun delegates =>
    delegates.length ≤ 51 ∧
      ∀ d ∈ delegates, Yields (LedgerReads.delegate? s d) fun record => ∃ x, record = some x
  committeeVotes : ∀ voter, Yields (LedgerReads.committeeVoteOf? s voter) fun vote =>
    ∀ c, vote = some c → Yields (LedgerReads.committee? s c) fun record => ∃ x, record = some x
  bills : ∀ id, Yields (LedgerReads.bill? s id) fun record => ∀ bill, record = some bill →
    (Yields (LedgerReads.committee? s bill.committee) fun record => ∃ x, record = some x) ∧
      1 ≤ bill.options.length ∧ bill.options.length ≤ 16 ∧
        bill.id = id ∧ id = ⟨hash160 (utf8 bill.title)⟩
  ballots : ∀ id voter, Yields (LedgerReads.ballot? s id voter) fun vote =>
    ∀ ballot, vote = some ballot → Yields (LedgerReads.bill? s id) fun record =>
      ∃ bill, record = some bill ∧ ballot.choice.toNat < bill.options.length
  delegateNames : Yields (LedgerReads.delegates s) fun records => ∀ d ∈ records, NameForm d.name
  committeeNames : Yields (LedgerReads.committees s) fun records => ∀ c ∈ records, NameForm c.name
  names : Yields (LedgerReads.names s) fun names => ∀ e ∈ names, NameForm e.2
  tokenIds : Yields (LedgerReads.tokens s) fun tokens => ∀ id : TokenId,
    (∃ t ∈ tokens, t.id = id) ↔ 1 ≤ id.number.toNat ∧ id.number.toNat ≤ tokens.length
  tokens : Yields (LedgerReads.tokens s) fun tokens => ∀ t ∈ tokens, t.WholeSupply ∧
    Yields (LedgerReads.nameOf? s t.owner) fun name => ∃ given, name = some given
  locks : ∀ id, Yields (LedgerReads.locks s id) fun locks => ∀ k ∈ locks, k.amount ≠ 0

theorem Alike.recordsHold {σ τ : Type} [LedgerReads σ] [LedgerReads τ] {s : σ} {t : τ}
    (h : Alike s t) (hs : RecordsHold s) : RecordsHold t where
  delegateVotes := by simpa only [h.delegateVotesOf, h.delegate?] using hs.delegateVotes
  committeeVotes := by simpa only [h.committeeVoteOf?, h.committee?] using hs.committeeVotes
  bills := by simpa only [h.bill?, h.committee?] using hs.bills
  ballots := by simpa only [h.ballot?, h.bill?] using hs.ballots
  delegateNames := by simpa only [h.delegates] using hs.delegateNames
  committeeNames := by simpa only [h.committees] using hs.committeeNames
  names := by simpa only [h.names] using hs.names
  tokenIds := by simpa only [h.tokens] using hs.tokenIds
  tokens := by simpa only [h.tokens, h.nameOf?] using hs.tokens
  locks := by simpa only [h.locks] using hs.locks

namespace Ledger

open SortedMap

structure Lawful (l : Ledger) : Prop where
  voteCount : ∀ voter, (l.delegateVotes.part voter).size ≤ maxDelegateVotes
  votes : ∀ k, l.delegateVotes.contains k = true → l.delegates.contains k.2 = true
  committeeVotes : ∀ voter c, l.committeeVotes.get? voter = some c →
    l.committees.contains c = true
  bills : ∀ id b, l.bills.get? id = some b → l.committees.contains b.committee = true ∧
    b.options ≠ [] ∧ b.options.length ≤ maxBillOptions ∧ id = .ofTitle b.title
  ballots : ∀ k x, l.ballots.get? k = some x →
    ∃ b, l.bills.get? k.1 = some b ∧ x.choice.toNat < b.options.length
  delegateNames : ∀ a d, l.delegates.get? a = some d → isName d.name = true
  committeeNames : ∀ a c, l.committees.get? a = some c → isName c.name = true
  names : ∀ a name, l.names.get? a = some name → isName name = true
  tokenIds : ∀ id, l.tokens.contains id = true ↔
    1 ≤ id.number.toNat ∧ id.number.toNat ≤ l.tokens.size
  tokens : ∀ id t, l.tokens.get? id = some t → t.WholeSupply ∧ l.names.contains t.owner = true
  locks : ∀ k amount, l.tokenLocks.get? k = some amount → amount ≠ 0

variable {l : Ledger}

theorem lawful_empty : Lawful ∅ where
  voteCount _ := Nat.zero_le _
  votes _ h := nomatch h
  committeeVotes _ _ h := nomatch h
  bills _ _ h := nomatch h
  ballots _ _ h := nomatch h
  delegateNames _ _ h := nomatch h
  committeeNames _ _ h := nomatch h
  names _ _ h := nomatch h
  tokenIds id := by
    constructor
    · intro h
      cases h
    · rintro ⟨hone, hzero⟩
      exact absurd (Nat.le_trans hone hzero) (by decide)
  tokens _ _ h := nomatch h
  locks _ _ h := nomatch h

theorem Lawful.voteDelegates (h : l.Lawful) {voter : KeyId} {delegates : List KeyId}
    (registered : ∀ d ∈ delegates, l.delegates.contains d = true)
    (count : (pairedWith l.delegateVotes voter).length + delegates.length ≤ maxDelegateVotes) :
    (l.enact (.voteDelegates voter delegates)).Lawful := by
  have hlength : (pairedWith l.delegateVotes voter).length = (l.delegateVotes.part voter).size :=
    List.length_map _
  rw [enact_voteDelegates]
  refine { h with voteCount := ?_, votes := ?_ }
  · intro other
    have hsize := size_part_foldl_add_le delegates l.delegateVotes voter other
    have hbefore := h.voteCount other
    by_cases he : other = voter
    · subst he
      rw [if_pos rfl] at hsize
      exact Nat.le_trans hsize (hlength ▸ count)
    · rw [if_neg he] at hsize
      exact Nat.le_trans hsize hbefore
  · intro k hk
    rcases contains_foldl_add.mp hk with ⟨d, hd, rfl⟩ | hk
    · exact registered d hd
    · exact h.votes k hk

theorem Lawful.revokeDelegates (h : l.Lawful) (voter : KeyId) (delegates : List KeyId) :
    (l.enact (.revokeDelegates voter delegates)).Lawful := by
  rw [enact_revokeDelegates]
  refine { h with voteCount := ?_, votes := ?_ }
  · intro other
    exact Nat.le_trans (size_part_foldl_erase_le ..) (h.voteCount other)
  · intro k hk
    exact h.votes k (contains_of_foldl_erase hk)

theorem Lawful.submitBill (h : l.Lawful) {b : Bill}
    (registered : l.committees.contains b.committee = true) (fresh : l.bills.contains b.id = false)
    (count : b.options ≠ [] ∧ b.options.length ≤ maxBillOptions)
    (hid : b.id = .ofTitle b.title) : (l.enact (.submitBill b)).Lawful := by
  refine { h with
    bills := forall_insert h.bills ⟨registered, count.1, count.2, hid⟩
    ballots := ?_ }
  intro k x hx
  obtain ⟨bill, hb, hchoice⟩ := h.ballots k x hx
  exact ⟨bill, get?_insert_of_free (contains_eq_false.mp fresh) hb, hchoice⟩

theorem Lawful.closed (h : l.Lawful) (b : Block) (coins : Coins) {id : BillId} {bill : Bill}
    (hb : l.bills.get? id = some bill) : (l.closed b coins id).Lawful := by
  have hballots : ∀ k x, (l.closed b coins id).ballots.get? k = some x →
      ∃ bill, l.bills.get? k.1 = some bill ∧ x.choice.toNat < bill.options.length := by
    intro k x hx
    rw [get?_ballots_closed hb, Option.map_eq_some_iff] at hx
    obtain ⟨y, hy, rfl⟩ := hx
    obtain ⟨bill, hbill, hchoice⟩ := h.ballots k y hy
    exact ⟨bill, hbill, by split <;> exact hchoice⟩
  rw [closed_eq hb] at hballots ⊢
  exact { h with ballots := hballots }

/-- The next number is the one after the count of tokens, unless it is taken. -/
theorem Lawful.toNat_nextTokenId (h : l.Lawful) (hn : l.Numbered)
    (hfree : l.tokens.contains l.nextTokenId = false) :
    l.nextTokenId.number.toNat = l.tokens.size + 1 := by
  have hnot : ¬ (1 ≤ l.nextTokenId.number.toNat ∧ l.nextTokenId.number.toNat ≤ l.tokens.size) := by
    rw [← h.tokenIds, hfree]
    exact Bool.false_ne_true
  cases hlast : l.tokens.last? with
  | none =>
    have hnil : l.tokens.entries = [] := List.getLast?_eq_none_iff.mp hlast
    have hsize : l.tokens.size = 0 := congrArg List.length hnil
    rw [nextTokenId_of_none hlast, hsize]
    rfl
  | some e =>
    have hget := get?_of_mem (List.mem_of_getLast? hlast)
    have hrange := (h.tokenIds e.1).mp (contains_eq_true.mpr ⟨_, hget⟩)
    have hlt := e.1.number.toNat_lt_size
    rw [hn.nextTokenId_of_last hlast, toNat_next] at hnot ⊢
    omega

theorem Lawful.createToken (h : l.Lawful) (hn : l.Numbered) {t : Token} (hid : t.id = l.nextTokenId)
    (hfree : l.tokens.contains t.id = false) (whole : t.WholeSupply)
    (named : l.names.contains t.owner = true) : (l.enact (.createToken t)).Lawful := by
  have hnumber := h.toNat_nextTokenId hn (hid ▸ hfree)
  have hsize : (l.tokens.insert t.id t).size = l.tokens.size + 1 :=
    size_insert_of_absent (contains_eq_false.mp hfree) t
  rw [enact_createToken]
  refine { h with tokenIds := ?_, tokens := forall_insert h.tokens ⟨whole, named⟩ }
  intro id
  have heq : id = t.id ↔ id.number.toNat = l.tokens.size + 1 := by
    rw [← hnumber, hid]
    constructor
    · intro he
      rw [he]
    · intro he
      exact congrArg TokenId.mk (UInt64.toNat_inj.mp he)
  rw [contains_insert, h.tokenIds, hsize, heq]
  omega

theorem Lawful.transferToken (h : l.Lawful) (d : TokenDebit) :
    (l.enact (.transferToken d)).Lawful := by
  rw [enact_transferToken]
  exact { h with locks := fun k amount hk => h.locks k amount (get?_unlocked hk) }

theorem Lawful.lockToken (h : l.Lawful) (hc : l.Conserved) {d : TokenDebit} (backed : l.Backed d)
    (positive : d.amount ≠ 0) (expiry : Height) : (l.enact (.lockToken d expiry)).Lawful := by
  let k : TokenLock := ⟨d.token, d.target, expiry, d.amount⟩
  -- The sum at the lock fits into a word, so that it is not below the amount added to it.
  have hsum := Word.checkedAdd_eq_some_iff.mp (backed.fits_locked hc expiry)
  have hlocked : (l.withdrawn d).lockedAt k + d.amount ≠ 0 := by
    intro hzero
    rw [hzero] at hsum
    exact positive (UInt64.toNat_inj.mp (Nat.eq_zero_of_add_eq_zero_left hsum))
  have hlocks : ∀ k amount, (l.withdrawn d).tokenLocks.get? k = some amount → amount ≠ 0 := by
    intro k amount hk
    rw [withdrawn_eq] at hk
    exact h.locks k amount (get?_unlocked hk)
  rw [enact_lockToken]
  exact { h with locks := forall_insert (k := k.key) hlocks hlocked }

theorem Lawful.enact {point : ChainPoint} {sender : KeyId} {op : Operation} {effect : Effect}
    (h : l.Lawful) (hs : l.Sound) (ha : l.Admitted point sender op effect)
    (hr : l.HasRoom effect) : (l.enact effect).Lawful := by
  cases ha with
  | registerDelegate form _ _ =>
    exact { h with
      votes := fun k hk => contains_insert.mpr (.inr (h.votes k hk))
      delegateNames := forall_insert h.delegateNames form }
  | voteDelegates registered _ count => exact h.voteDelegates registered count
  | revokeDelegates _ => exact h.revokeDelegates _ _
  | registerCommittee form _ _ _ =>
    exact { h with
      committeeVotes := fun voter c hc => contains_insert.mpr (.inr (h.committeeVotes voter c hc))
      bills := fun id b hb => ⟨contains_insert.mpr (.inr (h.bills id b hb).1), (h.bills id b hb).2⟩
      committeeNames := forall_insert h.committeeNames form }
  | voteCommittee registered _ =>
    exact { h with committeeVotes := forall_insert h.committeeVotes registered }
  | revokeCommittee _ => exact { h with committeeVotes := forall_erase h.committeeVotes }
  | submitBill form registered fresh => exact h.submitBill registered fresh form.count rfl
  | voteBill stored _ _ offered _ =>
    exact { h with ballots := forall_insert h.ballots ⟨_, stored, offered⟩ }
  | registerName form _ _ =>
    exact { h with
      names := forall_insert h.names form
      tokens := fun id t ht =>
        ⟨(h.tokens id t ht).1, contains_insert.mpr (.inr (h.tokens id t ht).2)⟩ }
  | createToken form named _ whole supply _ =>
    exact h.createToken hs.numbered rfl hr (wholeSupply_of_draft form whole supply rfl rfl) named
  | transferToken _ _ => exact h.transferToken _
  | lockToken positive backed _ => exact h.lockToken hs.conserved backed positive _

theorem invariant_lawful : Invariant Lawful where
  start := lawful_empty
  enact hs h ha hr := h.enact hs ha hr
  closed := by
    intro l b coins id bill _ h hb _ _
    exact h.closed b coins hb
  cursor _ h := { h with }

theorem Lawful.recordsHold (h : l.Lawful) (hs : l.Sound) : RecordsHold l where
  delegateVotes voter := by
    refine .of_ok ⟨?_, ?_⟩
    · rw [pairedWith, List.length_map]
      exact h.voteCount voter
    · intro d hd
      exact .of_ok (contains_eq_true.mp (h.votes _ (mem_pairedWith.mp hd)))
  committeeVotes voter := .of_ok fun c hc => .of_ok (contains_eq_true.mp (h.committeeVotes _ c hc))
  bills id := by
    refine .of_ok fun bill hb => ?_
    obtain ⟨registered, hsome, hfew, htitle⟩ := h.bills id bill hb
    exact ⟨.of_ok (contains_eq_true.mp registered), List.length_pos_iff.mpr hsome, hfew,
      hs.scheduled.ids id bill hb, htitle⟩
  ballots id voter := .of_ok fun ballot hb => .of_ok (h.ballots (id, voter) ballot hb)
  delegateNames := by
    refine .of_ok fun d hd => ?_
    obtain ⟨a, ha⟩ := mem_values.mp hd
    exact nameForm_of_isName (h.delegateNames a d ha)
  committeeNames := by
    refine .of_ok fun c hc => ?_
    obtain ⟨a, ha⟩ := mem_values.mp hc
    exact nameForm_of_isName (h.committeeNames a c ha)
  names := .of_ok fun e he => nameForm_of_isName (h.names e.1 e.2 (get?_of_mem he))
  tokenIds := by
    refine .of_ok fun id => ?_
    have hlength : l.tokens.values.length = l.tokens.size := List.length_map _
    rw [hlength, ← h.tokenIds, contains_eq_true]
    constructor
    · rintro ⟨t, ht, rfl⟩
      obtain ⟨id, hid⟩ := mem_values.mp ht
      exact ⟨t, hs.numbered.ids id t hid ▸ hid⟩
    · rintro ⟨t, ht⟩
      exact ⟨t, mem_values.mpr ⟨id, ht⟩, hs.numbered.ids id t ht⟩
  tokens := by
    refine .of_ok fun t ht => ?_
    obtain ⟨id, hid⟩ := mem_values.mp ht
    obtain ⟨whole, named⟩ := h.tokens id t hid
    exact ⟨whole, .of_ok (contains_eq_true.mp named)⟩
  locks id := by
    refine .of_ok fun k hk => ?_
    obtain ⟨e, he, hsome⟩ := List.mem_filterMap.mp hk
    split at hsome
    · cases hsome
      exact h.locks e.1 e.2 (get?_of_mem he)
    · cases hsome

end Ledger

namespace Chain

def found : Block :=
  let sender : KeyId := ⟨.fill 20 1⟩
  let payload (op : Operation) : Bytes := (Payload.bytesOf op).1 :: (Payload.bytesOf op).2
  let ops : List Operation :=
    [.registerName "ada", .registerDelegate "ada", .voteDelegates (SortedSet.ofKeys [sender]),
      .registerCommittee "council" "", .voteCommittee sender,
      .submitBill ⟨"Budget", "", "", 1, ["yes", "no"]⟩, .voteBill (.ofTitle "Budget") 1,
      .createToken ⟨"GOLD", "Gold", ⟨.fill 20 7⟩, 1000, 2⟩]
  ⟨1, 10, ops.mapIdx fun i op => ⟨UInt32.ofNat i, payload op, sender, 0⟩⟩

/-- Whatever blocks are applied to a new store, in every state on the way the records are what the
rules ask of them. -/
theorem records_hold {k : Backend} {s : k.Store} (h : Visited k.opened s) : RecordsHold s := by
  cases k with
  | memory =>
    obtain ⟨hsound, hlawful⟩ := Ledger.invariant_lawful.visited h
    exact hlawful.recordsHold hsound
  | tables =>
    obtain ⟨l, hl, hm⟩ := Database.exists_mirrors_of_visited h
    obtain ⟨hsound, hlawful⟩ := Ledger.invariant_lawful.visited hl
    exact hm.alike.recordsHold (hlawful.recordsHold hsound)

theorem records_hold_after_found :
    let l := (apply (.flat 0) fresh found ∅ (∅ : Ledger)).store
    (l.delegateVotes.size, l.committeeVotes.size, l.ballots.size, l.tokens.size) = (1, 1, 1, 1) ∧
      Visited (∅ : Ledger) l ∧ RecordsHold l :=
  have hvisited : Visited (∅ : Ledger) (apply (.flat 0) fresh found ∅ (∅ : Ledger)).store :=
    .reached (.block (.flat 0) found ∅ .start)
  ⟨by decide +kernel, hvisited, records_hold (k := .memory) hvisited⟩

end Chain

end CivicLedger
