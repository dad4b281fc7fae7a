import CivicLedger.Proofs.Node.Digest
import CivicLedger.Proofs.Node.Standings

/-!
# What readers can tell apart

Questions are answered from the records and their indexes, and from the coins of one point of the
chain. Two stores with the same records are therefore told apart by one question only: what an
address has of all tokens is answered for every token that it has ever held, and what is held no
longer is no record.
-/

namespace CivicLedger

open Chain Gateway SortedMap

/-- Two stores find the same by their indexes. A name that is looked up is not empty. -/
structure SameIndexes {σ τ : Type} [LedgerReads σ] [LedgerReads τ] (s : σ) (t : τ) : Prop where
  delegate? : ∀ a, Concur (LedgerReads.delegate? s a) (LedgerReads.delegate? t a)
  delegateNamed? : ∀ n, n ≠ "" →
    Concur (LedgerReads.delegateNamed? s n) (LedgerReads.delegateNamed? t n)
  committee? : ∀ a, Concur (LedgerReads.committee? s a) (LedgerReads.committee? t a)
  committeeNamed? : ∀ n, n ≠ "" →
    Concur (LedgerReads.committeeNamed? s n) (LedgerReads.committeeNamed? t n)
  bill? : ∀ b, Concur (LedgerReads.bill? s b) (LedgerReads.bill? t b)
  committeeBills : ∀ c, Concur (LedgerReads.committeeBills s c) (LedgerReads.committeeBills t c)
  billsVotedBy : ∀ v, Concur (LedgerReads.billsVotedBy s v) (LedgerReads.billsVotedBy t v)
  billsDue : ∀ time, Concur (LedgerReads.billsDue s time) (LedgerReads.billsDue t time)
  nameOf? : ∀ a, Concur (LedgerReads.nameOf? s a) (LedgerReads.nameOf? t a)
  named? : ∀ n, n ≠ "" → Concur (LedgerReads.named? s n) (LedgerReads.named? t n)
  token? : ∀ id, Concur (LedgerReads.token? s id) (LedgerReads.token? t id)
  tokenAt? : ∀ a, Concur (LedgerReads.tokenAt? s a) (LedgerReads.tokenAt? t a)
  tokenWithSymbol? : ∀ o n,
    Concur (LedgerReads.tokenWithSymbol? s o n) (LedgerReads.tokenWithSymbol? t o n)
  nextTokenId : Concur (LedgerReads.nextTokenId s) (LedgerReads.nextTokenId t)

section

variable {σ τ : Type} [LedgerReads σ] [LedgerReads τ] {l l' : Ledger} {s : σ} {t : τ}

namespace Ledger

theorem sameIndexes (h : l.records = l'.records) (hs : Alike l s) (ht : Alike l' t) :
    SameIndexes s t where
  delegate? a := concur_of_records h (·.delegates.get? a) (hs.delegate? a) (ht.delegate? a)
  delegateNamed? n hn :=
    concur_of_records h (·.delegateNames.get? n) (hs.delegateNamed? n hn) (ht.delegateNamed? n hn)
  committee? a := concur_of_records h (·.committees.get? a) (hs.committee? a) (ht.committee? a)
  committeeNamed? n hn := concur_of_records h (·.committeeNames.get? n)
    (hs.committeeNamed? n hn) (ht.committeeNamed? n hn)
  bill? b := concur_of_records h (·.bills.get? b) (hs.bill? b) (ht.bill? b)
  committeeBills c := concur_of_records h (fun m => pairedWith m.committeeBills c)
    (hs.committeeBills c) (ht.committeeBills c)
  billsVotedBy v :=
    concur_of_records h (fun m => pairedWith m.votedBills v) (hs.billsVotedBy v) (ht.billsVotedBy v)
  billsDue time := concur_of_records h (·.billsDue time) (hs.billsDue time) (ht.billsDue time)
  nameOf? a := concur_of_records h (·.names.get? a) (hs.nameOf? a) (ht.nameOf? a)
  named? n hn := concur_of_records h (·.namedKeys.get? n) (hs.named? n hn) (ht.named? n hn)
  token? id := concur_of_records h (·.tokens.get? id) (hs.token? id) (ht.token? id)
  tokenAt? a := concur_of_records h (·.tokenAddresses.get? a) (hs.tokenAt? a) (ht.tokenAt? a)
  tokenWithSymbol? o n := concur_of_records h (·.tokenSymbols.get? (o, n))
    (hs.tokenWithSymbol? o n) (ht.tokenWithSymbol? o n)
  nextTokenId := concur_of_records h nextTokenId hs.nextTokenId ht.nextTokenId

end Ledger

end

namespace Survey

variable {σ τ : Type} [LedgerReads σ] [LedgerReads τ] {s : σ} {t : τ}

theorem committeeStanding_congr (hr : SameRecords s t) (coins : Coins) (point : ChainPoint) :
    (Survey.mk s coins point).committeeStanding = (Survey.mk t coins point).committeeStanding := by
  funext c
  simp only [committeeStanding, ask, weightOf, (hr.committeeVoters _).eq]

theorem withStanding_congr (hr : SameRecords s t) (coins : Coins) (point : ChainPoint) :
    (Survey.mk s coins point).withStanding = (Survey.mk t coins point).withStanding := by
  funext b
  simp only [withStanding, billStanding, liveTally, ask, (hr.settlement? _).eq, (hr.ballots _).eq]

theorem tokenStanding_congr (hr : SameRecords s t) (hi : SameIndexes s t) (coins : Coins)
    (point : ChainPoint) :
    (Survey.mk s coins point).tokenStanding = (Survey.mk t coins point).tokenStanding := by
  funext holder id
  simp only [tokenStanding, ask, (hi.token? _).eq, (hr.locksOf _ _).eq, (hr.tokenBalance _ _).eq]
  rfl

end Survey

namespace Gateway

section

variable {σ τ : Type} [LedgerReads σ] [LedgerReads τ] {s : σ} {t : τ} {p : Arguments}

theorem Arguments.at?_of_text {i : Nat} {label n : String}
    (h : Arguments.text p i label = .ok n) : Arguments.at? p i = some (.text n) := by
  unfold Arguments.text Arguments.text? at h
  cases hat : Arguments.at? p i with
  | none =>
    rw [hat] at h
    cases h
  | some v =>
    rw [hat] at h
    cases v <;> cases h
    rfl

theorem Question.name_of_ofName? {name : String} {q : Question}
    (h : Question.ofName? name = some q) : q.name = name := by
  have hfound := List.find?_some h
  exact of_decide_eq_true hfound

def Question.byName : List Question :=
  [.getDelegateVotes, .getDelegateFunds, .listReceivedVotes, .getNameAddress]

/-- An answer to a text is the same where it is the same to the one that is given. -/
theorem text_bind_congr {i : Nat} {label : String} {f g : String → Answer Json}
    (h : ∀ n, Arguments.at? p i = some (.text n) → f n = g n) :
    (Arguments.text p i label >>= f) = (Arguments.text p i label >>= g) := by
  cases htext : Arguments.text p i label with
  | error fault => rfl
  | ok n => exact h n (Arguments.at?_of_text htext)

/-- A question that is not about all that an address has ever held is answered from the records. -/
theorem ask_congr (hr : SameRecords s t) (hi : SameIndexes s t) (coins : Coins)
    (point : ChainPoint) (q : Question)
    (hnamed : q ∈ Question.byName → ∀ n, Arguments.at? p 0 = some (.text n) →
      LedgerReads.delegateNamed? s n = LedgerReads.delegateNamed? t n ∧
        LedgerReads.named? s n = LedgerReads.named? t n)
    (hq : q = .getTokenBalance → Arguments.key? p 1 "token address" ≠ .ok none) :
    q.ask ⟨s, coins, point⟩ p = q.ask ⟨t, coins, point⟩ p := by
  have hcommittee := Survey.committeeStanding_congr hr coins point
  have hbill := Survey.withStanding_congr hr coins point
  have htoken := Survey.tokenStanding_congr hr hi coins point
  cases q with
  | listDelegates => simp only [Question.ask, Survey.listDelegates, Survey.ask, hr.delegates.eq]
  | getDelegateVotes =>
    refine text_bind_congr fun n hn => ?_
    simp only [Survey.delegateVotes, Survey.delegateNamed, Survey.weightOf, Survey.ask,
      (hnamed (by decide) n hn).1, (hr.delegateVoters _).eq]
  | getDelegateFunds =>
    refine text_bind_congr fun n hn => ?_
    simp only [Survey.delegateFunds, Survey.delegateNamed, Survey.ask, (hnamed (by decide) n hn).1]
  | listVotedDelegates =>
    simp only [Question.ask, Survey.votedDelegates, Survey.ask, (hr.delegateVotesOf _).eq,
      (hi.delegate? _).eq]
  | listReceivedVotes =>
    refine text_bind_congr fun n hn => ?_
    simp only [Survey.receivedVotes, Survey.delegateNamed, Survey.ask,
      (hnamed (by decide) n hn).1, (hr.delegateVoters _).eq]
    rfl
  | getCommittee =>
    simp only [Question.ask, Survey.committee, Survey.ask, (hi.committee? _).eq, hcommittee]
  | listCommittees =>
    simp only [Question.ask, Survey.listCommittees, Survey.ask, hr.committees.eq, hcommittee]
  | listCommitteeVoters =>
    simp only [Question.ask, Survey.committeeVoters, Survey.ask, (hr.committeeVoters _).eq]
    rfl
  | listCommitteeBills =>
    simp only [Question.ask, Survey.committeeBills, Survey.ask, (hi.committeeBills _).eq,
      (hi.bill? _).eq]
  | listVoterCommittees =>
    simp only [Question.ask, Survey.voterCommittees, Survey.committee, Survey.ask,
      (hr.committeeVoteOf? _).eq, (hi.committee? _).eq, hcommittee]
  | getBill => simp only [Question.ask, Survey.bill, Survey.ask, (hi.bill? _).eq, hbill]
  | listBills => simp only [Question.ask, Survey.listBills, Survey.ask, hr.bills.eq, hbill]
  | listBillVoters =>
    simp only [Question.ask, Survey.billVoters, Survey.ask, (hi.bill? _).eq, (hr.ballots _).eq]
    rfl
  | listVoterBills =>
    simp only [Question.ask, Survey.voterBills, Survey.ask, (hi.billsVotedBy _).eq,
      (hr.ballot? _ _).eq]
  | getAddressBalance => rfl
  | getCoinRank => rfl
  | getCoinDistribution => rfl
  | getAddressName => simp only [Question.ask, Survey.nameOf, Survey.ask, (hi.nameOf? _).eq]
  | getNameAddress =>
    refine text_bind_congr fun n hn => ?_
    simp only [Survey.addressNamed, Survey.ask, (hnamed (by decide) n hn).2]
  | getTokenInfo =>
    simp only [Question.ask, Survey.tokenInfo, Survey.ask, (hi.tokenAt? _).eq, (hi.token? _).eq,
      hr.tokens.eq]
  | getTokenBalance =>
    cases hkey : Arguments.key? p 1 "token address" with
    | error fault => simp only [Question.ask, hkey]; rfl
    | ok address? =>
      cases address? with
      | none => exact absurd hkey (hq rfl)
      | some address =>
        simp only [Question.ask, hkey, Survey.tokenBalances, Survey.ask, bind, Except.bind,
          (hi.tokenAt? _).eq, htoken]

end

end Gateway

def TokenStanding.remains (x : TokenStanding) : Bool := x.available != 0 || !x.locks.isEmpty

namespace Ledger

variable {l l' : Ledger} {point : ChainPoint} {holder : KeyId}

def standingOf (l : Ledger) (point : ChainPoint) (holder : KeyId) (id : TokenId) :
    Option TokenStanding :=
  (l.tokens.get? id).map fun t =>
    ⟨id, t.symbol, t.address, t.digits, l.available id holder,
      (l.locksOf id holder).map fun k => ⟨k.expiry, k.amount, k.isMaturedAt point.height⟩⟩

def standings (l : Ledger) (point : ChainPoint) (holder : KeyId) : List TokenStanding :=
  (pairedWith l.heldTokens holder).filterMap (l.standingOf point holder)

theorem tokenStanding_eq (l : Ledger) (coins : Coins) (point : ChainPoint) (holder : KeyId)
    (id : TokenId) :
    (Survey.mk l coins point).tokenStanding holder id = .ok (l.standingOf point holder id) := by
  have hread : (Survey.mk l coins point).ask (LedgerReads.token? · id) = .ok (l.tokens.get? id) :=
    rfl
  unfold Survey.tokenStanding standingOf
  rw [hread]
  cases l.tokens.get? id <;> rfl

theorem tokenBalances_eq (l : Ledger) (coins : Coins) (point : ChainPoint) (holder : KeyId) :
    (Survey.mk l coins point).tokenBalances holder none = .ok (l.standings point holder) := by
  have heach : (pairedWith l.heldTokens holder).mapM
      ((Survey.mk l coins point).tokenStanding holder) =
        .ok ((pairedWith l.heldTokens holder).map (l.standingOf point holder)) := by
    rw [funext (tokenStanding_eq l coins point holder)]
    exact List.mapM_pure
  have hread : (Survey.mk l coins point).ask (LedgerReads.tokensHeldBy · holder) =
      .ok (pairedWith l.heldTokens holder) := rfl
  simp only [Survey.tokenBalances, hread, bind, Except.bind, heach, pure, Except.pure,
    List.filterMap_map, standings]
  rfl

/-- A token of which something is left has been held. -/
theorem Indexed.held_of_remains (h : l.Indexed) {id : TokenId}
    (hid : ((l.standingOf point holder id).filter TokenStanding.remains).isSome = true) :
    (l.heldTokens.part holder).contains id = true := by
  have hpart : (l.heldTokens.part holder).contains id = l.heldTokens.contains (holder, id) := by
    rw [contains, get?_part, contains]
  rw [hpart]
  obtain ⟨x, hx⟩ := Option.isSome_iff_exists.mp hid
  obtain ⟨hsome, hremains⟩ := Option.filter_eq_some_iff.mp hx
  obtain ⟨t, _, rfl⟩ := Option.map_eq_some_iff.mp hsome
  rcases Bool.or_eq_true_iff.mp hremains with hleft | hlocks
  · refine h.heldBalances id holder (Bool.not_eq_false _ ▸ fun hnone => ?_)
    have hzero : l.available id holder = 0 := by
      unfold available
      rw [contains_eq_false.mp hnone]
      rfl
    rw [hzero] at hleft
    cases hleft
  · obtain ⟨e, he⟩ : ∃ e, e ∈ l.tokenLocks.within (id, holder) := by
      cases hwithin : l.tokenLocks.within (id, holder) with
      | nil =>
        unfold locksOf at hlocks
        rw [hwithin] at hlocks
        cases hlocks
      | cons e rest => exact ⟨e, List.mem_cons_self⟩
    exact h.heldLocks id holder e.1 (contains_eq_true.mpr ⟨e.2, mem_within.mp he⟩)

/-- Where the records are the same, the answers differ only in tokens of which nothing is left. -/
theorem Indexed.standings_eq (h : l.Indexed) (h' : l'.Indexed) (hrecords : l.records = l'.records)
    (point : ChainPoint) (holder : KeyId) :
    (l.standings point holder).filter TokenStanding.remains =
      (l'.standings point holder).filter TokenStanding.remains := by
  have hsame : l.standingOf point holder = l'.standingOf point holder := by
    change l.records.standingOf point holder = l'.records.standingOf point holder
    rw [hrecords]
  unfold standings
  rw [List.filter_filterMap, List.filter_filterMap, ← hsame]
  refine filterMap_keys_congr (m := l.heldTokens.part holder) (n := l'.heldTokens.part holder)
    (fun id hid => h.held_of_remains hid) fun id hid => ?_
  rw [hsame] at hid
  exact h'.held_of_remains hid

end Ledger

open Interchange (ofList)

def outlook {σ : Type} [LedgerReads σ] (s : σ) : Except StoreFault (Coins × ChainPoint) :=
  (Survey.pin s).map fun x => (x.coins, x.point)

/-- Two lists of what an address has held, the same but for tokens of which nothing is left. -/
def SameHoldings (a b : Answer Json) : Prop :=
  ∃ xs ys : List TokenStanding, a = .ok (ofList Body.tokenBalance xs) ∧
    b = .ok (ofList Body.tokenBalance ys) ∧
      xs.filter TokenStanding.remains = ys.filter TokenStanding.remains

namespace Backend.Holds

variable {k k' : Backend} {l l' : Ledger} {s : k.Store} {t : k'.Store}

theorem pin (h : k.Holds l s) : Survey.pin s = .ok ⟨s, l.coinBalances, l.vantage⟩ :=
  h.alike.pin_ledger

theorem outlook (h : k.Holds l s) : outlook s = .ok (l.coinBalances, l.vantage) := by
  unfold CivicLedger.outlook
  rw [h.pin]
  rfl

theorem collect (h : k.Holds l s) : Inventory.collect s = .ok l.inventory := by
  rw [← h.alike.collect, l.collect_eq]

/-- Tables refuse to look up the empty name; any other name is found alike. -/
theorem named_eq (h : k.Holds l s) (h' : k'.Holds l' t) (hrecords : l.records = l'.records)
    {n : String} (hn : n = "" → k = k') :
    LedgerReads.delegateNamed? s n = LedgerReads.delegateNamed? t n ∧
      LedgerReads.named? s n = LedgerReads.named? t n := by
  by_cases hempty : n = ""
  · obtain rfl := hn hempty
    subst hempty
    cases k with
    | memory =>
      cases h
      cases h'
      exact ⟨(Ledger.concur_of_records hrecords (·.delegateNames.get? "") rfl rfl).eq,
        (Ledger.concur_of_records hrecords (·.namedKeys.get? "") rfl rfl).eq⟩
    | tables => exact ⟨rfl, rfl⟩
  · have hi := Ledger.sameIndexes hrecords h.alike h'.alike
    exact ⟨(hi.delegateNamed? n hempty).eq, (hi.named? n hempty).eq⟩

/-- All that an address has held is answered from the ledger. -/
theorem ask_holdings (h : k.Holds l s) {p : Arguments}
    (hp : Arguments.key? p 1 "token address" = .ok none) (coins : Coins) (point : ChainPoint) :
    Question.ask ⟨s, coins, point⟩ p .getTokenBalance =
      (Arguments.key p 0 "user address").map fun holder =>
        ofList Body.tokenBalance (l.standings point holder) := by
  have hstanding : (Survey.mk s coins point).tokenStanding =
      (Survey.mk l coins point).tokenStanding := by
    funext holder id
    simp only [Survey.tokenStanding, Survey.ask, h.alike.token?, h.alike.locksOf,
      h.alike.tokenBalance]
    rfl
  have hall (holder : KeyId) : (Survey.mk s coins point).tokenBalances holder none =
      .ok (l.standings point holder) := by
    rw [← l.tokenBalances_eq coins]
    simp only [Survey.tokenBalances, Survey.ask, h.alike.tokensHeldBy, hstanding]
  cases hkey : Arguments.key p 0 "user address" with
  | error fault =>
    simp only [Question.ask, hkey]
    rfl
  | ok holder =>
    simp only [Question.ask, hkey, hp, bind, Except.bind, hall]
    rfl

/-- Stores that hold the same records answer a question alike, or say the same of what is left. -/
theorem ask_cases (h : k.Holds l s) (h' : k'.Holds l' t) (hl : l.Indexed) (hl' : l'.Indexed)
    (hrecords : l.records = l'.records) (coins : Coins) (point : ChainPoint) (p : Arguments)
    (q : Question) (hq : q ∈ Question.byName → Arguments.at? p 0 = some (.text "") → k = k') :
    q.ask ⟨s, coins, point⟩ p = q.ask ⟨t, coins, point⟩ p ∨
      q = .getTokenBalance ∧ Arguments.key? p 1 "token address" = .ok none ∧
        SameHoldings (q.ask ⟨s, coins, point⟩ p) (q.ask ⟨t, coins, point⟩ p) := by
  by_cases hopen : q = .getTokenBalance ∧ Arguments.key? p 1 "token address" = .ok none
  · obtain ⟨rfl, hkey⟩ := hopen
    rw [h.ask_holdings hkey, h'.ask_holdings hkey]
    cases Arguments.key p 0 "user address" with
    | error fault => exact .inl rfl
    | ok holder =>
      exact .inr ⟨rfl, hkey, _, _, rfl, rfl, hl.standings_eq hl' hrecords point holder⟩
  · left
    refine ask_congr (Ledger.sameRecords hrecords h.alike h'.alike)
      (Ledger.sameIndexes hrecords h.alike h'.alike) coins point q ?_ fun hbalance hkey =>
        hopen ⟨hbalance, hkey⟩
    intro hnamed n hn
    refine h.named_eq h' hrecords fun hempty => ?_
    exact hq hnamed (hempty ▸ hn)

end Backend.Holds

namespace Node

/-- Stores whose inventories have one transcript, with the same coins at the same point, answer
every question alike. Only to the question what an address has of all tokens one of them may also
list tokens that the address held once and of which nothing is left. Tables and a ledger in memory
are asked for names that are not empty. -/
theorem readers_agree {k k' : Backend} {s : k.Store} {t : k'.Store} (hs : Kept k.opened s)
    (ht : Kept k'.opened t) :
    ∃ v w x y, Inventory.collect s = .ok v ∧ Inventory.collect t = .ok w ∧
      outlook s = .ok x ∧ outlook t = .ok y ∧
      (v.Sized → w.Sized → v.transcript = w.transcript → x = y → ∀ name p,
        (name ∈ Question.byName.map Question.name → Arguments.at? p 0 = some (.text "") →
          k = k') →
        Question.answer s name p = Question.answer t name p ∨
          name = "gettokenbalance" ∧ Arguments.key? p 1 "token address" = .ok none ∧
            SameHoldings (Question.answer s name p) (Question.answer t name p)) := by
  obtain ⟨l, hl, hholds⟩ := exists_coherent hs
  obtain ⟨l', hl', hholds'⟩ := exists_coherent ht
  refine ⟨_, _, _, _, hholds.collect, hholds'.collect, hholds.outlook, hholds'.outlook, ?_⟩
  intro hv hw htranscript hsame name p hp
  obtain ⟨hcoins, hpoint⟩ := Prod.mk.inj hsame
  have hrecords := hl.records_eq hl' (Inventory.eq_of_transcript hv hw htranscript)
  unfold Question.answer
  rw [hholds.pin, hholds'.pin, ← hcoins, ← hpoint]
  dsimp only
  cases hname : Question.ofName? name with
  | none => exact .inl rfl
  | some q =>
    have hspelled := Question.name_of_ofName? hname
    have hq : q ∈ Question.byName → Arguments.at? p 0 = some (.text "") → k = k' :=
      fun hnamed => hp (hspelled ▸ List.mem_map_of_mem hnamed)
    rcases hholds.ask_cases hholds' hl.indexed hl'.indexed hrecords l.coinBalances l.vantage p q hq
      with hask | ⟨rfl, hkey, hholdings⟩
    · exact .inl hask
    · exact .inr ⟨hspelled.symm, hkey, hholdings⟩

def roundTrip : Block :=
  let owner : KeyId := ⟨.fill 20 1⟩
  let other : KeyId := ⟨.fill 20 2⟩
  let payload (op : Operation) : Bytes := (Payload.bytesOf op).1 :: (Payload.bytesOf op).2
  ⟨1, 10, [⟨2, payload (.transferToken .first other 10 ""), owner, 0⟩,
    ⟨3, payload (.transferToken .first owner 10 ""), other, 0⟩]⟩

theorem readers_agree_after_round_trip :
    let s := (apply (.flat 0) fresh issue ∅ (∅ : Ledger)).store
    let t := (apply (.flat 0) fresh roundTrip ∅ s).store
    s.cursor = some ⟨1, 2⟩ ∧ t.cursor = some ⟨1, 4⟩ ∧
      ∀ name p, Question.answer s name p = Question.answer t name p ∨
        name = "gettokenbalance" ∧ Arguments.key? p 1 "token address" = .ok none ∧
          SameHoldings (Question.answer s name p) (Question.answer t name p) := by
  intro s t
  have hs : Kept (∅ : Ledger) s := .block (.flat 0) fresh issue ∅ .start
  have ht : Kept (∅ : Ledger) t := .block (.flat 0) fresh roundTrip ∅ hs
  have hv : Inventory.collect s = .ok s.inventory := s.collect_eq
  have hw : Inventory.collect t = .ok s.inventory := by decide +kernel
  have hsized : s.inventory.Sized := by decide +kernel
  have hsame : outlook s = outlook t := by decide +kernel
  have hcursors : s.cursor = some ⟨1, 2⟩ ∧ t.cursor = some ⟨1, 4⟩ := by decide +kernel
  obtain ⟨v, w, x, y, hv', hw', hx, hy, hagree⟩ := @readers_agree .memory .memory s t hs ht
  cases hv.symm.trans hv'
  cases hw.symm.trans hw'
  have hpins : x = y := Except.ok.inj (hx.symm.trans (hsame.trans hy))
  exact ⟨hcursors.1, hcursors.2,
    fun name p => hagree hsized hsized rfl hpins name p fun _ _ => rfl⟩

/-- The inventory, the coins and the point are the same after the units have come back, and the
other address is answered a token that it has nothing of. Tables that nothing has been written to
refuse the empty name, which a ledger in memory does not know. -/
theorem past_holdings_are_told :
    let s := (apply (.flat 0) fresh issue ∅ (∅ : Ledger)).store
    let t := (apply (.flat 0) fresh roundTrip ∅ s).store
    let other : Arguments := [.text "0202020202020202020202020202020202020202"]
    (Kept (∅ : Ledger) s ∧ Kept (∅ : Ledger) t ∧
        Inventory.collect s = Inventory.collect t ∧ outlook s = outlook t ∧
        Question.answer s "gettokenbalance" other ≠ Question.answer t "gettokenbalance" other) ∧
      Kept (∅ : Ledger) ∅ ∧ Kept Database.opened Database.opened ∧
        Inventory.collect (∅ : Ledger) = Inventory.collect Database.opened ∧
        outlook (∅ : Ledger) = outlook Database.opened ∧
        Question.answer (∅ : Ledger) "getnameaddress" [.text ""] ≠
          Question.answer Database.opened "getnameaddress" [.text ""] := by
  intro s t other
  have hs : Kept (∅ : Ledger) s := .block (.flat 0) fresh issue ∅ .start
  have ht : Kept (∅ : Ledger) t := .block (.flat 0) fresh roundTrip ∅ hs
  refine ⟨⟨hs, ht, by decide +kernel, by decide +kernel, ?_⟩, .start, .start, by decide +kernel,
    by decide +kernel, ?_⟩
  · intro heq
    exact absurd (congrArg (Except.map Json.print) heq) (by decide +kernel)
  · intro heq
    exact absurd (congrArg Except.isOk heq) (by decide +kernel)

end Node

end CivicLedger
