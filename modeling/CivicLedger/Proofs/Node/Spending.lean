import CivicLedger.Proofs.Node.Readers

/-!
# What a holder may spend

Readers are told what of a token is available and which locks have matured at their point of the
chain, and the rules of payments reckon with the same. Both sums stop at the largest word. They
never come near it, since all that is held of a token is within its supply, so a payment is admitted
exactly if readers at its height are told that the payer may spend as much.
-/

namespace CivicLedger

open Admission Chain Form Gateway SortedMap

/-- What may be spent at a height, in exact arithmetic: what is available, and the locks whose
expiry is not above the height. -/
def spendableAt (available : UInt64) (locks : List TokenLock) (height : Height) : Nat :=
  available.toNat + heldIn (locks.filter fun k => k.expiry ≤ height)

/-- Less is held in a part of the locks. -/
theorem heldIn_filter_le {p q : TokenLock → Bool} (h : ∀ k, p k = true → q k = true)
    (locks : List TokenLock) : heldIn (locks.filter p) ≤ heldIn (locks.filter q) := by
  induction locks with
  | nil => exact Nat.le_refl _
  | cons k locks ih =>
    by_cases hp : p k = true
    · rw [List.filter_cons_of_pos hp, List.filter_cons_of_pos (h k hp), heldIn_cons, heldIn_cons]
      omega
    · rw [List.filter_cons_of_neg hp]
      by_cases hq : q k = true
      · rw [List.filter_cons_of_pos hq, heldIn_cons]
        omega
      · rwa [List.filter_cons_of_neg hq]

/-- What matures stays spendable. -/
theorem spendableAt_mono (available : UInt64) (locks : List TokenLock) {height later : Height}
    (h : height ≤ later) :
    spendableAt available locks height ≤ spendableAt available locks later := by
  have hmore (k : TokenLock) (hk : decide (k.expiry ≤ height) = true) :
      decide (k.expiry ≤ later) = true := by
    rw [decide_eq_true_eq] at hk ⊢
    exact UInt64.le_trans hk h
  exact Nat.add_le_add_left (heldIn_filter_le hmore locks) _

/-- Where the whole fits into a word, the sum does not stop short of it. -/
theorem toNat_spendableTotal {available : UInt64} {matured : List TokenLock}
    (h : available.toNat + heldIn matured < UInt64.size) :
    (Rules.spendableTotal available matured).toNat = available.toNat + heldIn matured := by
  rw [toNat_spendableTotal_eq_min]
  exact Nat.min_eq_left (Nat.le_sub_one_of_lt h)

namespace Ledger

variable {l : Ledger} {id : TokenId} {holder target : KeyId} {point : ChainPoint} {amount : UInt64}

def spendableOf (l : Ledger) (id : TokenId) (holder : KeyId) (height : Height) : Nat :=
  spendableAt (l.available id holder) (l.locksOf id holder) height

/-- What may be spent of a token is within its supply. -/
theorem Conserved.spendableOf_le_issued (h : l.Conserved) (id : TokenId) (holder : KeyId)
    (height : Height) : l.spendableOf id holder height ≤ l.issued id := by
  have hbalance := toNat_available_le l id holder
  have hkept := (kept_locksOf l id holder).filter fun k => k.expiry ≤ height
  -- The locks that have matured are what unlocking takes out of the total of all locks.
  have hlocks := hkept.total_unlocked id
  have hsupply := h.supply id
  rw [if_pos rfl] at hlocks
  unfold spendableOf spendableAt
  unfold outstanding at hsupply
  omega

theorem Conserved.toNat_spendableTotal (h : l.Conserved) (id : TokenId) (holder : KeyId)
    (height : Height) :
    (Rules.spendableTotal (l.available id holder)
      ((l.locksOf id holder).filter (·.isMaturedAt height))).toNat =
        l.spendableOf id holder height := by
  have hle := h.spendableOf_le_issued id holder height
  have hfit := issued_lt_size l id
  exact CivicLedger.toNat_spendableTotal (Nat.lt_of_le_of_lt hle hfit)

/-- The standing that readers are given adds up to what may be spent. -/
theorem Conserved.toNat_spendable_standing (h : l.Conserved) {x : TokenStanding}
    (hx : l.standingOf point holder id = some x) :
    x.token = id ∧ x.spendable.toNat = l.spendableOf id holder point.height := by
  obtain ⟨t, _, rfl⟩ := Option.map_eq_some_iff.mp hx
  refine ⟨rfl, ?_⟩
  rw [← h.toNat_spendableTotal]
  unfold TokenStanding.spendable Rules.spendableTotal
  simp only [List.filter_map, List.foldl_map]
  rfl

theorem mem_standings {x : TokenStanding} :
    x ∈ l.standings point holder ↔
      ∃ id, l.heldTokens.contains (holder, id) = true ∧ l.standingOf point holder id = some x := by
  unfold standings
  simp only [List.mem_filterMap, mem_pairedWith]

/-- A token that is there has a standing. -/
theorem exists_standing {t : Token} (h : l.tokens.get? id = some t) (point : ChainPoint)
    (holder : KeyId) : ∃ x, l.standingOf point holder id = some x := by
  unfold standingOf
  rw [h]
  exact ⟨_, rfl⟩

/-- Whatever a holder has left of a token, the token is there and is listed as held. -/
theorem Coherent.listed (h : l.Coherent)
    (hleft : l.available id holder ≠ 0 ∨ l.locksOf id holder ≠ []) (point : ChainPoint) :
    ∃ x ∈ l.standings point holder, x.token = id := by
  have hconserved := h.sound.conserved
  obtain ⟨t, ht⟩ : ∃ t, l.tokens.get? id = some t := by
    rw [← Option.ne_none_iff_exists']
    intro hnone
    rcases hleft with hleft | hleft
    · exact hleft (hconserved.available_of_free hnone holder)
    · exact hleft (hconserved.locksOf_of_free hnone holder)
  obtain ⟨x, hx⟩ := exists_standing ht point holder
  have hremains : x.remains = true := by
    obtain ⟨t, _, rfl⟩ := Option.map_eq_some_iff.mp hx
    rcases hleft with hleft | hleft
    · simp [TokenStanding.remains, hleft]
    · simp [TokenStanding.remains, hleft]
  have hheld : (l.heldTokens.part holder).contains id = true := by
    have hsome : ((l.standingOf point holder id).filter TokenStanding.remains).isSome = true := by
      rw [hx, Option.filter_some, if_pos hremains]
      rfl
    exact h.indexed.held_of_remains hsome
  rw [contains, get?_part, ← contains] at hheld
  exact ⟨x, mem_standings.mpr ⟨id, hheld, hx⟩, (hconserved.toNat_spendable_standing hx).1⟩

theorem Conserved.debit_admitted_iff (h : l.Conserved) (hpositive : amount ≠ 0) :
    (∃ d, Rules.admitDebit l point holder id target amount = .ok d) ↔
      amount.toNat ≤ l.spendableOf id holder point.height := by
  have hpos : 0 < amount.toNat := by
    rw [Nat.pos_iff_ne_zero]
    intro hzero
    exact hpositive (UInt64.toNat_inj.mp hzero)
  have hissued := h.spendableOf_le_issued id holder point.height
  have htotal := h.toNat_spendableTotal id holder point.height
  unfold issued at hissued
  cases ht : l.tokens.get? id with
  | none =>
    -- Nothing is held of a token that is not there.
    rw [ht] at hissued
    change _ ≤ 0 at hissued
    simp only [Rules.admitDebit, LedgerReads.token?, ht, Admission.read, ok_bind]
    constructor
    · rintro ⟨d, hd⟩
      cases hd
    · intro hle
      omega
  | some t =>
    rw [ht] at hissued
    change _ ≤ t.total.toNat at hissued
    have hspend : Rules.spendable l id holder point.height =
        .ok (l.available id holder, (l.locksOf id holder).filter (·.isMaturedAt point.height)) :=
      rfl
    simp only [Rules.admitDebit, LedgerReads.token?, ht, hspend, Admission.read, ok_bind,
      refuse_bind, refuse_if_eq_ok, UInt64.not_lt, UInt64.le_iff_toNat_le, htotal]
    constructor
    · rintro ⟨d, -, hle, -⟩
      exact hle
    · intro hle
      exact ⟨_, by omega, hle, rfl⟩

theorem Conserved.transfer_admitted_iff (h : l.Conserved) (hpositive : amount ≠ 0)
    {comment : String} (hcomment : comment.utf8ByteSize ≤ TextField.comment.limit) :
    (∃ effect, assess l point holder (.transferToken id target amount comment) = .ok effect) ↔
      amount.toNat ≤ l.spendableOf id holder point.height := by
  have hform : (Operation.transferToken id target amount comment).checkForm = .ok () := by
    change checkPayment amount comment = _
    unfold checkPayment
    simp only [throw_bind, throw_if_eq_ok]
    exact ⟨hpositive, checkLength_eq_ok.mpr hcomment⟩
  have hdebit : (∃ d, Rules.admitDebit l point holder id target amount = .ok d) ↔
      amount.toNat ≤ l.spendableOf id holder point.height := h.debit_admitted_iff hpositive
  rw [← hdebit]
  simp only [assess, hform, Rules.admitTransfer]
  constructor
  · rintro ⟨effect, heffect⟩
    obtain ⟨d, hd, _⟩ := bind_eq_ok.mp heffect
    exact ⟨d, hd⟩
  · rintro ⟨d, hd⟩
    exact ⟨_, bind_eq_ok.mpr ⟨d, hd, rfl⟩⟩

/-- What is answered about the token that is bound to an address. -/
theorem tokenBalancesAt_eq (l : Ledger) (coins : Coins) (point : ChainPoint) (holder : KeyId)
    (address : KeyId) :
    (Survey.mk l coins point).tokenBalances holder (some address) =
      .ok ((l.tokenAddresses.get? address).toList.filterMap (l.standingOf point holder)) := by
  have hread : (Survey.mk l coins point).ask (LedgerReads.tokenAt? · address) =
      .ok (l.tokenAddresses.get? address) := rfl
  have heach : (l.tokenAddresses.get? address).toList.mapM
      ((Survey.mk l coins point).tokenStanding holder) =
        .ok ((l.tokenAddresses.get? address).toList.map (l.standingOf point holder)) := by
    rw [funext (tokenStanding_eq l coins point holder)]
    exact List.mapM_pure
  simp only [Survey.tokenBalances, hread, bind, Except.bind, pure, Except.pure, heach,
    List.filterMap_map]
  rfl

end Ledger

/-- Stores that answer alike tell the same of what a holder has. -/
theorem Alike.tokenBalances {σ τ : Type} [LedgerReads σ] [LedgerReads τ] {s : σ} {t : τ}
    (h : Alike s t) (coins : Coins) (point : ChainPoint) (holder : KeyId)
    (address? : Option KeyId) :
    (Survey.mk s coins point).tokenBalances holder address? =
      (Survey.mk t coins point).tokenBalances holder address? := by
  have hstanding : (Survey.mk s coins point).tokenStanding =
      (Survey.mk t coins point).tokenStanding := by
    funext holder id
    simp only [Survey.tokenStanding, Survey.ask, h.token?, h.locksOf, h.tokenBalance]
    rfl
  cases address? with
  | none => simp only [Survey.tokenBalances, Survey.ask, h.tokensHeldBy, hstanding]
  | some address => simp only [Survey.tokenBalances, Survey.ask, h.tokenAt?, hstanding]

structure Spends {σ : Type} [LedgerReads σ] (s : σ) (id : TokenId) (holder : KeyId)
    (available : UInt64) (locks : List TokenLock) : Prop where
  balance : LedgerReads.tokenBalance s id holder = .ok available
  held : LedgerReads.locksOf s id holder = .ok locks
  /-- Whatever readers ask for, what they are told of the token adds up exactly. -/
  told : ∀ coins point address?, ∃ xs,
    (Survey.mk s coins point).tokenBalances holder address? = .ok xs ∧
      ∀ x ∈ xs, x.token = id → x.available = available ∧
        x.locks = locks.map (fun k => ⟨k.expiry, k.amount, k.expiry ≤ point.height⟩) ∧
          x.spendable.toNat = spendableAt available locks point.height
  /-- The rules reckon with the same. -/
  reckoned : ∀ height, ∃ matured, Rules.spendable s id holder height = .ok (available, matured) ∧
    (Rules.spendableTotal available matured).toNat = spendableAt available locks height
  /-- A payment of at least one unit is admitted if so much may be spent, and only then. -/
  admitted : ∀ point target amount comment, amount ≠ 0 →
    comment.utf8ByteSize ≤ TextField.comment.limit →
      ((∃ effect, assess s point holder (.transferToken id target amount comment) = .ok effect) ↔
        amount.toNat ≤ spendableAt available locks point.height)
  grows : ∀ height later, height ≤ later →
    spendableAt available locks height ≤ spendableAt available locks later
  /-- Readers who ask for all tokens are told of one that anything is left of. -/
  listed : available ≠ 0 ∨ locks ≠ [] → ∀ coins point, ∃ xs,
    (Survey.mk s coins point).tokenBalances holder none = .ok xs ∧ ∃ x ∈ xs, x.token = id
  /-- Readers who ask for the address of a token are told of that token and no other. -/
  found : ∀ t, LedgerReads.token? s id = .ok (some t) → ∀ coins point, ∃ x,
    (Survey.mk s coins point).tokenBalances holder (some t.address) = .ok [x] ∧ x.token = id

namespace Ledger

variable {l : Ledger}

/-- What a standing says of its token. -/
theorem Conserved.standing_told (h : l.Conserved) {id : TokenId} {holder : KeyId}
    {point : ChainPoint} {x : TokenStanding} (hx : l.standingOf point holder id = some x) :
    x.available = l.available id holder ∧
      x.locks = (l.locksOf id holder).map
        (fun k => ⟨k.expiry, k.amount, k.expiry ≤ point.height⟩) ∧
        x.spendable.toNat = l.spendableOf id holder point.height := by
  refine ⟨?_, ?_, (h.toNat_spendable_standing hx).2⟩
  · obtain ⟨t, _, rfl⟩ := Option.map_eq_some_iff.mp hx
    rfl
  · obtain ⟨t, _, rfl⟩ := Option.map_eq_some_iff.mp hx
    rfl

theorem Coherent.spends (h : l.Coherent) (id : TokenId) (holder : KeyId) :
    Spends l id holder (l.available id holder) (l.locksOf id holder) where
  balance := rfl
  held := rfl
  told := by
    intro coins point address?
    -- Either way the list is of standings, each of the token that it is the standing of.
    have hstandings : ∃ ids, (Survey.mk l coins point).tokenBalances holder address? =
        .ok (List.filterMap (l.standingOf point holder) ids) := by
      cases address? with
      | none => exact ⟨_, l.tokenBalances_eq coins point holder⟩
      | some address => exact ⟨_, l.tokenBalancesAt_eq coins point holder address⟩
    obtain ⟨ids, hids⟩ := hstandings
    refine ⟨_, hids, ?_⟩
    intro x hx hid
    obtain ⟨id', -, hx⟩ := List.mem_filterMap.mp hx
    have htoken := (h.sound.conserved.toNat_spendable_standing hx).1
    rw [← hid, htoken]
    exact h.sound.conserved.standing_told hx
  reckoned height := ⟨_, rfl, h.sound.conserved.toNat_spendableTotal id holder height⟩
  admitted point target amount comment hpositive hcomment :=
    h.sound.conserved.transfer_admitted_iff hpositive hcomment
  grows height later := spendableAt_mono _ _
  listed hleft coins point := ⟨_, l.tokenBalances_eq coins point holder, h.listed hleft point⟩
  found := by
    intro t ht coins point
    have ht : l.tokens.get? id = some t := Except.ok.inj ht
    obtain ⟨x, hx⟩ := exists_standing ht point holder
    have haddress : l.tokenAddresses.get? t.address = some id :=
      (h.indexed.tokenAddresses t.address id).mpr ⟨t, ht, rfl⟩
    refine ⟨x, ?_, (h.sound.conserved.toNat_spendable_standing hx).1⟩
    rw [tokenBalancesAt_eq, haddress]
    simp only [Option.toList_some, List.filterMap_cons, hx, List.filterMap_nil]

end Ledger

theorem Spends.of_alike {σ τ : Type} [LedgerReads σ] [LedgerReads τ] {s : σ} {t : τ}
    (h : Alike s t) {id : TokenId} {holder : KeyId} {available : UInt64} {locks : List TokenLock}
    (hs : Spends s id holder available locks) : Spends t id holder available locks where
  balance := h.tokenBalance id holder ▸ hs.balance
  held := h.locksOf id holder ▸ hs.held
  told coins point address? := by
    rw [← h.tokenBalances]
    exact hs.told coins point address?
  reckoned height := by
    rw [← h.spendable]
    exact hs.reckoned height
  admitted point target amount comment := by
    rw [← h.assess]
    exact hs.admitted point target amount comment
  grows := hs.grows
  listed hleft coins point := by
    rw [← h.tokenBalances]
    exact hs.listed hleft coins point
  found record hrecord coins point := by
    rw [← h.tokenBalances]
    rw [← h.token?] at hrecord
    exact hs.found record hrecord coins point

namespace Node

/-- In every store that nodes leave, readers and rules agree on what a holder may spend. -/
theorem spending_agrees {k : Backend} {s : k.Store} (h : Kept k.opened s) (id : TokenId)
    (holder : KeyId) : ∃ available locks, Spends s id holder available locks := by
  obtain ⟨l, hl, hholds⟩ := exists_coherent h
  exact ⟨_, _, (hl.spends id holder).of_alike hholds.alike⟩

def savings : Block :=
  let owner : KeyId := ⟨.fill 20 1⟩
  let other : KeyId := ⟨.fill 20 2⟩
  let payload (op : Operation) : Bytes := (Payload.bytesOf op).1 :: (Payload.bytesOf op).2
  ⟨2, 20, [⟨0, payload (.lockToken .first other 10 5 ""), owner, 0⟩,
    ⟨1, payload (.lockToken .first other 30 9 ""), owner, 0⟩]⟩

theorem spending_agrees_on_savings :
    let first := apply (.flat 0) fresh issue ∅ (∅ : Ledger)
    let s := (apply (.flat 0) first.applicant savings ∅ first.store).store
    let other : KeyId := ⟨.fill 20 2⟩
    let locks : List TokenLock := [⟨.first, other, 5, 10⟩, ⟨.first, other, 9, 30⟩]
    Spends s .first other 0 locks ∧ spendableAt 0 locks 4 = 0 ∧ spendableAt 0 locks 5 = 10 ∧
      spendableAt 0 locks 9 = 40 := by
  intro first s other locks
  have hs : Kept (∅ : Ledger) s :=
    .block (.flat 0) first.applicant savings ∅ (.block (.flat 0) fresh issue ∅ .start)
  obtain ⟨available, held, h⟩ := spending_agrees (k := .memory) hs .first other
  have havailable : LedgerReads.tokenBalance s .first other = .ok 0 := by decide +kernel
  have hlocks : LedgerReads.locksOf s .first other = .ok locks := by decide +kernel
  cases havailable.symm.trans h.balance
  cases hlocks.symm.trans h.held
  exact ⟨h, by decide, by decide, by decide⟩

end Node

end CivicLedger
