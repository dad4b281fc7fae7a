import CivicLedger.Proofs.Chain.Guarantees
import CivicLedger.Proofs.Chain.Visits

/-!
# Whose holdings a transaction changes

A payment first folds the matured locks of its sender into what the sender has available, takes its
amount out, and then raises what the target has available or has locked. So nobody else can spend
what a holder has, nobody can spend what is locked before it matures, and no other holding changes.
-/

namespace CivicLedger

open Chain

structure Holding where
  available : UInt64
  locks : List TokenLock
  deriving DecidableEq

namespace Holding

def lockedTo (h : Holding) (expiry : Height) : UInt64 :=
  ((h.locks.find? (·.expiry == expiry)).map (·.amount)).getD 0

def total (h : Holding) : Nat := h.available.toNat + heldIn h.locks

def Grows (h h' : Holding) : Prop :=
  h.available ≤ h'.available ∧ ∀ expiry, h.lockedTo expiry ≤ h'.lockedTo expiry

def Credited (amount : UInt64) (h h' : Holding) : Prop :=
  h'.available.toNat = h.available.toNat + amount.toNat ∧ h'.locks = h.locks

def Locked (amount : UInt64) (expiry : Height) (h h' : Holding) : Prop :=
  h'.available = h.available ∧
    (h'.lockedTo expiry).toNat = (h.lockedTo expiry).toNat + amount.toNat ∧
    ∀ other, other ≠ expiry → h'.lockedTo other = h.lockedTo other

variable {h h' : Holding} {amount : UInt64} {expiry : Height}

theorem Grows.of_eq (he : h' = h) : h.Grows h' := by
  subst he
  exact ⟨UInt64.le_refl _, fun _ => UInt64.le_refl _⟩

theorem Credited.grows (hc : Credited amount h h') : h.Grows h' := by
  obtain ⟨havailable, hlocks⟩ := hc
  refine ⟨UInt64.le_iff_toNat_le.mpr (by omega), fun expiry => UInt64.le_of_eq ?_⟩
  unfold lockedTo
  rw [hlocks]

theorem Locked.grows (hl : Locked amount expiry h h') : h.Grows h' := by
  obtain ⟨havailable, hlocked, hrest⟩ := hl
  refine ⟨UInt64.le_of_eq havailable.symm, fun other => ?_⟩
  by_cases he : other = expiry
  · subst he
    exact UInt64.le_iff_toNat_le.mpr (by omega)
  · exact UInt64.le_of_eq (hrest other he).symm

end Holding

open Holding

structure Paid (sender : KeyId) (id : TokenId) (target : KeyId) (amount : UInt64)
    (raised : Holding → Holding → Prop) (before after : TokenId → KeyId → Holding) : Prop where
  taken : target ≠ sender → (after id sender).total + amount.toNat = (before id sender).total
  given : target ≠ sender → raised (before id target) (after id target)
  self : target = sender → (after id sender).total = (before id sender).total
  rest : ∀ id' holder, (id', holder) ≠ (id, sender) → (id', holder) ≠ (id, target) →
    after id' holder = before id' holder

section

-- What the store says of tokens before and after.
variable (token? token?' : TokenId → Except StoreFault (Option Token))

structure Minted (owner : KeyId) (total : UInt64) (id : TokenId)
    (before after : TokenId → KeyId → Holding) : Prop where
  fresh : token? id = .ok none
  record : Yields (token?' id) fun found => ∃ t, found = some t ∧ t.owner = owner ∧ t.total = total
  nothing : before id owner = ⟨0, []⟩
  all : after id owner = ⟨total, []⟩
  rest : ∀ id' holder, (id', holder) ≠ (id, owner) → after id' holder = before id' holder

def Moved (before after : TokenId → KeyId → Holding) (sender : KeyId) : Operation → Prop
  | .transferToken id target amount _ =>
    Paid sender id target amount (Credited amount) before after
  | .lockToken id target amount expiry _ =>
    Paid sender id target amount (Locked amount expiry) before after
  | .createToken d => ∃ id, Minted token? token?' sender d.total id before after
  | _ => after = before

/-- What an operation of a sender does to the holdings when it is applied at a height. -/
structure Accounted (height : Height) (sender : KeyId) (op : Operation)
    (before after : TokenId → KeyId → Holding) : Prop where
  others : ∀ id holder, holder ≠ sender → (before id holder).Grows (after id holder)
  unmatured : ∀ id holder expiry, height < expiry →
    (before id holder).lockedTo expiry ≤ (after id holder).lockedTo expiry
  moved : Moved token? token?' before after sender op

end

section

variable {σ : Type} [LedgerReads σ]

/-- What every holder has of every token in a store, with one lock at most up to a height. -/
structure Holds (s : σ) (holdings : TokenId → KeyId → Holding) : Prop where
  available : ∀ id holder,
    LedgerReads.tokenBalance s id holder = .ok (holdings id holder).available
  locks : ∀ id holder, LedgerReads.locksOf s id holder = .ok (holdings id holder).locks
  distinct : ∀ id holder, (holdings id holder).locks.Pairwise fun j k => j.expiry ≠ k.expiry

/-- What a transaction has done to the holdings. -/
def Booked (b : Block) (tx : Tx) (outcome : TxOutcome) (s s' : σ) : Prop :=
  ∃ before after, Holds s before ∧ Holds s' after ∧
    match outcome with
    | .applied kind => ∃ op, Payload.decode tx.payload = .ok op ∧ op.kind? = some kind ∧
      Accounted (LedgerReads.token? s) (LedgerReads.token? s') b.height tx.sender op before after
    | _ => after = before

theorem Alike.holds {τ : Type} [LedgerReads τ] {s : σ} {t : τ} (h : Alike s t)
    {holdings : TokenId → KeyId → Holding} (hs : Holds s holdings) : Holds t holdings where
  available := by simpa only [h.tokenBalance] using hs.available
  locks := by simpa only [h.locksOf] using hs.locks
  distinct := hs.distinct

theorem Alike.booked {τ : Type} [LedgerReads τ] {s s' : σ} {t t' : τ} (h : Alike s t)
    (h' : Alike s' t') {b : Block} {tx : Tx} {outcome : TxOutcome} (hs : Booked b tx outcome s s') :
    Booked b tx outcome t t' := by
  obtain ⟨before, after, hbefore, hafter, hbooked⟩ := hs
  refine ⟨before, after, h.holds hbefore, h'.holds hafter, ?_⟩
  rwa [funext h.token?, funext h'.token?] at hbooked

end

namespace Ledger

open SortedMap

variable {l l' : Ledger} {d : TokenDebit}

def holding (l : Ledger) (id : TokenId) (holder : KeyId) : Holding :=
  ⟨l.available id holder, l.locksOf id holder⟩

theorem holds_holding (l : Ledger) : Holds l l.holding where
  available _ _ := rfl
  locks _ _ := rfl
  distinct id holder := (kept_locksOf l id holder).distinct

theorem locksOf_eq (l : Ledger) (id : TokenId) (holder : KeyId) :
    l.locksOf id holder =
      (l.tokenLocks.part (id, holder)).entries.map fun e => ⟨id, holder, e.1, e.2⟩ := rfl

theorem lockedTo_holding (l : Ledger) (id : TokenId) (holder : KeyId) (expiry : Height) :
    (l.holding id holder).lockedTo expiry =
      (l.tokenLocks.get? ((id, holder), expiry)).getD 0 := by
  have hfind := find?_entries (l.tokenLocks.part (id, holder)) expiry
  rw [get?_part] at hfind
  unfold lockedTo holding
  rw [locksOf_eq, List.find?_map]
  simp only [Function.comp_def, hfind, Option.map_map, Option.map_id']

theorem heldIn_locksOf (l : Ledger) (id : TokenId) (holder : KeyId) :
    heldIn (l.locksOf id holder) =
      total (fun _ a => a.toNat) (l.tokenLocks.part (id, holder)) := by
  rw [locksOf_eq, heldIn, List.map_map]
  rfl

section Balance

variable (l : Ledger) (id : TokenId) (holder : KeyId) (amount : UInt64)

theorem holding_withBalance_self :
    (l.withBalance id holder amount).holding id holder = ⟨amount, l.locksOf id holder⟩ := by
  unfold holding available locksOf
  rw [tokenBalances_withBalance, tokenLocks_withBalance]
  by_cases hzero : amount = 0
  · rw [if_pos hzero, get?_erase_self, hzero]
    rfl
  · rw [if_neg hzero, get?_insert_self]
    rfl

theorem holding_withBalance_ne {other : TokenId} {keeper : KeyId}
    (h : (other, keeper) ≠ (id, holder)) :
    (l.withBalance id holder amount).holding other keeper = l.holding other keeper := by
  unfold holding available locksOf
  rw [tokenBalances_withBalance, tokenLocks_withBalance]
  by_cases hzero : amount = 0
  · rw [if_pos hzero, get?_erase_ne _ h]
  · rw [if_neg hzero, get?_insert_ne _ _ h]

end Balance

theorem Kept.locksOf_unlocked {token : TokenId} {holder : KeyId} {locks : List TokenLock}
    (h : l.Kept token holder locks) {id : TokenId} {keeper : KeyId}
    (hne : (id, keeper) ≠ (token, holder)) :
    (l.unlocked locks).locksOf id keeper = l.locksOf id keeper := by
  have hpart : (l.unlocked locks).tokenLocks.part (id, keeper) =
      l.tokenLocks.part (id, keeper) := by
    refine part_congr fun expiry => get?_unlocked_of_ne fun k hk hkey => hne ?_
    rw [← h.token k hk, ← h.holder k hk]
    exact (Prod.mk.inj hkey).1.symm
  rw [locksOf_eq, hpart, locksOf_eq]

/-- Unlocking takes what locks hold out of what the holder has locked. -/
theorem Kept.heldIn_unlocked {token : TokenId} {holder : KeyId} {locks : List TokenLock}
    (h : l.Kept token holder locks) :
    heldIn ((l.unlocked locks).locksOf token holder) + heldIn locks =
      heldIn (l.locksOf token holder) := by
  induction locks generalizing l with
  | nil => rfl
  | cons k rest ih =>
    have hrest := ih h.tail
    have hkey : k.key = ((token, holder), k.expiry) := by
      rw [TokenLock.key, h.token k List.mem_cons_self, h.holder k List.mem_cons_self]
    have hstored := h.stored k List.mem_cons_self
    have herase := total_erase (fun _ a => a.toNat) (l.tokenLocks.part (token, holder)) k.expiry
    rw [get?_part, ← hkey, hstored, share_some] at herase
    rw [heldIn_locksOf] at hrest ⊢
    rw [heldIn_locksOf, hkey, part_erase_self] at hrest
    rw [unlocked_cons, hkey, heldIn_locksOf, heldIn_cons]
    omega

theorem Backed.holding_withdrawn_ne (h : l.Backed d) {id : TokenId} {holder : KeyId}
    (hne : (id, holder) ≠ (d.token, d.source)) :
    (l.withdrawn d).holding id holder = l.holding id holder := by
  unfold withdrawn
  rw [holding_withBalance_ne _ _ _ _ hne]
  unfold holding
  rw [h.kept.locksOf_unlocked hne, available_unlocked]

/-- A payment takes its amount out of what the sender has available and locked. -/
theorem Backed.total_withdrawn (hc : l.Conserved) (h : l.Backed d) :
    ((l.withdrawn d).holding d.token d.source).total + d.amount.toNat =
      (l.holding d.token d.source).total := by
  have hremaining := h.toNat_remaining hc
  have hlocks := h.kept.heldIn_unlocked
  have hself : (l.withdrawn d).holding d.token d.source =
      ⟨l.remaining d, (l.unlocked d.matured).locksOf d.token d.source⟩ :=
    holding_withBalance_self _ _ _ _
  rw [hself]
  dsimp only [Holding.total, holding]
  omega

/-- What has not matured stays locked. -/
theorem lockedTo_withdrawn {height expiry : Height}
    (hm : ∀ k ∈ d.matured, k.expiry ≤ height) (hlater : height < expiry) (id : TokenId)
    (holder : KeyId) :
    ((l.withdrawn d).holding id holder).lockedTo expiry =
      (l.holding id holder).lockedTo expiry := by
  rw [lockedTo_holding, lockedTo_holding, withdrawn, tokenLocks_withBalance, get?_unlocked_of_ne]
  intro k hk hkey
  have hexpiry : k.expiry = expiry := (Prod.mk.inj hkey).2
  exact UInt64.not_lt.mpr (hexpiry ▸ hm k hk) hlater

structure Gains (l l' : Ledger) (id : TokenId) (target : KeyId) (amount : UInt64)
    (raised : Holding → Holding → Prop) : Prop where
  total : (l'.holding id target).total = (l.holding id target).total + amount.toNat
  raised : raised (l.holding id target) (l'.holding id target)
  rest : ∀ id' holder, (id', holder) ≠ (id, target) → l'.holding id' holder = l.holding id' holder

theorem gains_credited (hfit : Word.checkedAdd (l.available d.token d.target) d.amount =
    some (l.available d.token d.target + d.amount)) :
    l.Gains (l.credited d) d.token d.target d.amount (Credited d.amount) := by
  have hsum := Word.checkedAdd_eq_some_iff.mp hfit
  have hself : (l.credited d).holding d.token d.target =
      ⟨l.available d.token d.target + d.amount, l.locksOf d.token d.target⟩ :=
    holding_withBalance_self _ _ _ _
  refine ⟨?_, ?_, fun id' holder hne => holding_withBalance_ne l _ _ _ hne⟩
  · rw [hself]
    dsimp only [Holding.total, holding]
    omega
  · rw [hself]
    exact ⟨hsum.symm, rfl⟩

theorem gains_locked {k : TokenLock} (hfit : Word.checkedAdd (l.lockedAt k) k.amount =
    some (l.lockedAt k + k.amount)) :
    l.Gains (l.locked k) k.token k.holder k.amount (Locked k.amount k.expiry) := by
  have hsum := Word.checkedAdd_eq_some_iff.mp hfit
  have hpart : (l.locked k).tokenLocks.part (k.token, k.holder) =
      (l.tokenLocks.part (k.token, k.holder)).insert k.expiry (l.lockedAt k + k.amount) :=
    part_insert_self _ _ _
  have hlocked (expiry : Height) : ((l.locked k).holding k.token k.holder).lockedTo expiry =
      if expiry = k.expiry then l.lockedAt k + k.amount
      else (l.holding k.token k.holder).lockedTo expiry := by
    rw [lockedTo_holding, lockedTo_holding, ← get?_part, hpart, get?_insert, get?_part]
    split <;> rfl
  refine ⟨?_, ⟨rfl, ?_, ?_⟩, ?_⟩
  · have hinsert := total_insert (fun _ a => a.toNat) (l.tokenLocks.part (k.token, k.holder))
      k.expiry (l.lockedAt k + k.amount)
    have hshare : share (fun _ a => a.toNat) k.expiry
        ((l.tokenLocks.part (k.token, k.holder)).get? k.expiry) = (l.lockedAt k).toNat := by
      rw [get?_part, lockedAt, TokenLock.key]
      cases l.tokenLocks.get? ((k.token, k.holder), k.expiry) <;> rfl
    have hsame : (l.locked k).available k.token k.holder = l.available k.token k.holder := rfl
    dsimp only [Holding.total, holding]
    rw [heldIn_locksOf, heldIn_locksOf, hpart, hsame]
    omega
  · rw [hlocked, if_pos rfl, lockedTo_holding]
    exact hsum.symm
  · intro other hne
    rw [hlocked, if_neg hne]
  · intro id holder hne
    have hother : (l.locked k).tokenLocks.part (id, holder) = l.tokenLocks.part (id, holder) :=
      part_insert_ne _ _ hne _
    unfold holding
    rw [locksOf_eq, hother, locksOf_eq]
    rfl

variable {id : TokenId} {target sender : KeyId} {amount : UInt64}
  {raised : Holding → Holding → Prop}

theorem Gains.grows (h : l.Gains l' id target amount raised)
    (hraised : ∀ x y, raised x y → x.Grows y) (id' : TokenId) (holder : KeyId) :
    (l.holding id' holder).Grows (l'.holding id' holder) := by
  by_cases he : (id', holder) = (id, target)
  · obtain ⟨rfl, rfl⟩ := Prod.mk.inj he
    exact hraised _ _ h.raised
  · exact .of_eq (h.rest id' holder he)

theorem Backed.paid (h : l.Backed d) (hc : l.Conserved)
    (hg : (l.withdrawn d).Gains l' d.token d.target d.amount raised) :
    Paid d.source d.token d.target d.amount raised l.holding l'.holding := by
  have htaken := h.total_withdrawn hc
  have hne {x y : KeyId} (hxy : x ≠ y) : (d.token, x) ≠ (d.token, y) :=
    fun he => hxy (Prod.mk.inj he).2
  constructor
  · intro hother
    rwa [hg.rest d.token d.source (hne hother.symm)]
  · intro hother
    rw [← h.holding_withdrawn_ne (hne hother)]
    exact hg.raised
  · intro hself
    have htotal := hg.total
    rw [hself] at htotal
    omega
  · intro id' holder hsource htarget
    rw [hg.rest id' holder htarget, h.holding_withdrawn_ne hsource]

section Operation

variable {height : Height} {op : Operation}

theorem accounted_of_eq (h : l'.holding = l.holding)
    (hm : Moved (LedgerReads.token? l) (LedgerReads.token? l') l.holding l'.holding sender op) :
    Accounted (LedgerReads.token? l) (LedgerReads.token? l') height sender op l.holding
      l'.holding := by
  have hgrows (id : TokenId) (holder : KeyId) :
      (l.holding id holder).Grows (l'.holding id holder) :=
    .of_eq (congrFun (congrFun h id) holder)
  refine ⟨?_, ?_, hm⟩
  · intro id holder _
    exact hgrows id holder
  · intro id holder expiry _
    exact (hgrows id holder).2 expiry

theorem Backed.accounted (h : l.Backed d) (hc : l.Conserved)
    (hm : ∀ k ∈ d.matured, k.expiry ≤ height)
    (hg : (l.withdrawn d).Gains l' d.token d.target d.amount raised)
    (hraised : ∀ x y, raised x y → x.Grows y)
    (hmoved : Paid d.source d.token d.target d.amount raised l.holding l'.holding →
      Moved (LedgerReads.token? l) (LedgerReads.token? l') l.holding l'.holding d.source op) :
    Accounted (LedgerReads.token? l) (LedgerReads.token? l') height d.source op l.holding
      l'.holding where
  -- The withdrawal touches the sender alone and only what has matured; the gain takes nothing.
  others id holder hne := by
    have hgrows := hg.grows hraised id holder
    rwa [h.holding_withdrawn_ne fun he => hne (Prod.mk.inj he).2] at hgrows
  unmatured id holder expiry hlater := by
    rw [← lockedTo_withdrawn hm hlater]
    exact (hg.grows hraised id holder).2 expiry
  moved := hmoved (h.paid hc hg)

theorem accounted_createToken (hc : l.Conserved) {t : Token} {draft : TokenDraft}
    (hfree : l.tokens.contains t.id = false) (htotal : t.total = draft.total) :
    Accounted (LedgerReads.token? l) (LedgerReads.token? (l.enact (.createToken t))) height t.owner
      (.createToken draft) l.holding (l.enact (.createToken t)).holding := by
  have hnone := contains_eq_false.mp hfree
  have hlocks := hc.locksOf_of_free hnone t.owner
  have hnothing : l.holding t.id t.owner = ⟨0, []⟩ := by
    rw [holding, hc.available_of_free hnone, hlocks]
  have hall : (l.enact (.createToken t)).holding t.id t.owner = ⟨t.total, []⟩ :=
    (holding_withBalance_self (l.withToken t) _ _ _).trans (congrArg (Holding.mk t.total) hlocks)
  have hrest : ∀ id' holder, (id', holder) ≠ (t.id, t.owner) →
      (l.enact (.createToken t)).holding id' holder = l.holding id' holder :=
    fun id' holder hne => holding_withBalance_ne (l.withToken t) _ _ _ hne
  refine ⟨?_, ?_, ?_⟩
  · intro id' holder hne
    exact .of_eq (hrest id' holder fun he => hne (Prod.mk.inj he).2)
  · intro id' holder expiry _
    by_cases he : (id', holder) = (t.id, t.owner)
    · obtain ⟨rfl, rfl⟩ := Prod.mk.inj he
      exact UInt64.le_of_eq (by rw [hnothing, hall, lockedTo, lockedTo])
    · exact UInt64.le_of_eq (by rw [hrest id' holder he])
  · refine ⟨t.id, congrArg Except.ok hnone, .of_ok ⟨t, ?_, rfl, htotal⟩, hnothing, htotal ▸ hall,
      hrest⟩
    rw [enact_createToken, get?_insert_self]

theorem expiry_le_of_debit {k : TokenLock}
    (hk : k ∈ (l.debit height sender id target amount).matured) : k.expiry ≤ height :=
  of_decide_eq_true (List.mem_filter.mp hk).2

/-- What the rules admit does to the holdings what it should. -/
theorem Admitted.accounted {point : ChainPoint} {effect : Effect}
    (ha : l.Admitted point sender op effect) (hc : l.Conserved) (hr : l.HasRoom effect) :
    Accounted (LedgerReads.token? l) (LedgerReads.token? (l.enact effect)) point.height sender op
      l.holding (l.enact effect).holding := by
  cases ha with
  | voteDelegates =>
    rw [enact_voteDelegates]
    exact accounted_of_eq rfl rfl
  | revokeDelegates =>
    rw [enact_revokeDelegates]
    exact accounted_of_eq rfl rfl
  | createToken => exact accounted_createToken hc hr rfl
  | transferToken positive backed =>
    exact backed.accounted hc (fun _ => expiry_le_of_debit)
      (gains_credited (backed.fits_available hc)) (fun _ _ => Credited.grows) id
  | lockToken positive backed later =>
    exact backed.accounted hc (fun _ => expiry_le_of_debit)
      (gains_locked (backed.fits_locked hc _)) (fun _ _ => Locked.grows) id
  | _ => exact accounted_of_eq rfl rfl

end Operation

theorem Processed.booked {b : Block} {tx : Tx} {outcome : TxOutcome}
    (hp : l.Processed b tx outcome l') (hc : l.Conserved) (cursor : Option Cursor) :
    Booked b tx outcome l { l' with cursor := cursor } := by
  refine ⟨l.holding, l'.holding, holds_holding l, holds_holding { l' with cursor := cursor }, ?_⟩
  cases hp with
  | unchanged hnot =>
    cases outcome with
    | applied kind => exact absurd rfl (hnot kind)
    | _ => rfl
  | enacted decoded hassess room =>
    have hadmitted := admitted_of_assess hassess
    exact ⟨_, decoded, hadmitted.kind, hadmitted.accounted hc room⟩

end Ledger

namespace Chain

/-- In every state that blocks lead to from a new store, a transaction changes holdings only as its
operation says: it takes from its sender alone, and nothing that has not matured. -/
theorem holdings_booked {k : Backend} {s s' : k.Store} {fees : FeeSchedule} {b : Block} {tx : Tx}
    {outcome : TxOutcome} (h : Visited k.opened s) (happly : applyTx fees b tx s = .ok outcome s') :
    Booked b tx outcome s s' := by
  have hledger {l l' : Ledger} (hl : Visited ∅ l) (hok : applyTx fees b tx l = .ok outcome l') :
      Booked b tx outcome l l' := by
    have hsound := Ledger.sound_of_visited hl
    obtain ⟨m, hm, rfl⟩ := hsound.processed_of_applyTx hok
    exact hm.booked hsound.conserved _
  cases k with
  | memory => exact hledger h happly
  | tables =>
    obtain ⟨l, hl, hm⟩ := Database.exists_mirrors_of_visited h
    have hboth := Database.agree_applyTx fees b tx l s hm
    rw [happly] at hboth
    obtain ⟨l', hok, hm'⟩ := hboth.exists_ledger
    exact hm.alike.booked hm'.alike (hledger hl hok)

def payment : Tx :=
  let (opcode, body) := Payload.bytesOf (.transferToken .first ⟨.fill 20 2⟩ 300 "")
  ⟨0, opcode :: body, ⟨.fill 20 1⟩, 0⟩

theorem holdings_booked_after_issue :
    let issued := (apply (.flat 0) fresh issue ∅ (∅ : Ledger)).store
    let b : Block := ⟨2, 20, [payment]⟩
    Visited (∅ : Ledger) issued ∧ ∃ l, applyTx (.flat 0) b payment issued =
      .ok (.applied .transferToken) l ∧ l.available .first ⟨.fill 20 2⟩ = 300 ∧
        Booked b payment (.applied .transferToken) issued l := by
  intro issued b
  have hvisited : Visited (∅ : Ledger) issued := .reached (.block (.flat 0) issue ∅ .start)
  have hrun : (match applyTx (.flat 0) b payment issued with
      | .ok outcome l => (outcome, l.available .first ⟨.fill 20 2⟩)
      | .error _ _ => (.alreadyApplied, 0)) = (.applied .transferToken, 300) := by
    decide +kernel
  refine ⟨hvisited, ?_⟩
  cases happly : applyTx (.flat 0) b payment issued with
  | ok outcome l =>
    rw [happly] at hrun
    obtain ⟨rfl, hpaid⟩ := Prod.mk.inj hrun
    exact ⟨l, rfl, hpaid, holdings_booked (k := .memory) hvisited happly⟩
  | error fault l =>
    rw [happly] at hrun
    cases hrun

end Chain

end CivicLedger
