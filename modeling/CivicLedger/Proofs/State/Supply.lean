import CivicLedger.Number.WordLemmas
import CivicLedger.Proofs.Rules.Admitted
import CivicLedger.Proofs.State.Edits

/-!
# The supply of tokens

What the balances and locks of a token come to together, in exact arithmetic, and how each edit
moves that sum. A token is conserved while the sum is the supply that its record gives.
-/

namespace CivicLedger

def TokenLock.key (k : TokenLock) : (TokenId × KeyId) × Height := ((k.token, k.holder), k.expiry)

def heldIn (locks : List TokenLock) : Nat := (locks.map (·.amount.toNat)).sum

@[simp] theorem heldIn_nil : heldIn [] = 0 := rfl
@[simp] theorem heldIn_cons (k : TokenLock) (locks : List TokenLock) :
    heldIn (k :: locks) = k.amount.toNat + heldIn locks := by
  simp [heldIn]

/-- In a store the holders and the locks of each token come to its supply, and there are none of a
token without a record. -/
def SupplyHolds {σ : Type} [LedgerReads σ] (s : σ) : Prop :=
  ∀ id : TokenId, ∃ record holders locks, LedgerReads.token? s id = .ok record ∧
    LedgerReads.tokenHolders s id = .ok holders ∧ LedgerReads.locks s id = .ok locks ∧
    match record with
    | some t => (holders.map fun e => e.2.toNat).sum + heldIn locks = t.total.toNat
    | none => holders = [] ∧ locks = []

theorem toNat_spendableTotal_eq_min (available : UInt64) (matured : List TokenLock) :
    (Rules.spendableTotal available matured).toNat =
      min (available.toNat + heldIn matured) (UInt64.size - 1) := by
  have hfold : Rules.spendableTotal available matured =
      (matured.map (·.amount)).foldl Word.satAdd available := List.foldl_map.symm
  rw [hfold, Word.toNat_foldl_satAdd, List.map_map]
  rfl

theorem toNat_spendableTotal_le (available : UInt64) (matured : List TokenLock) :
    (Rules.spendableTotal available matured).toNat ≤ available.toNat + heldIn matured := by
  rw [toNat_spendableTotal_eq_min]
  exact Nat.min_le_left _ _

namespace Ledger

open SortedMap

def balanceShare (id : TokenId) (k : TokenId × KeyId) (amount : UInt64) : Nat :=
  if k.1 = id then amount.toNat else 0

def lockShare (id : TokenId) (k : (TokenId × KeyId) × Height) (amount : UInt64) : Nat :=
  if k.1.1 = id then amount.toNat else 0

def outstanding (l : Ledger) (id : TokenId) : Nat :=
  total (balanceShare id) l.tokenBalances + total (lockShare id) l.tokenLocks

def issued (l : Ledger) (id : TokenId) : Nat := (l.tokens.get? id).elim 0 (·.total.toNat)

/-- What is outstanding of each token is its supply, and nothing is held of a token without a
record. -/
structure Conserved (l : Ledger) : Prop where
  supply : ∀ id, l.outstanding id = l.issued id
  balances : ∀ k amount, l.tokenBalances.get? k = some amount → ∃ t, l.tokens.get? k.1 = some t
  locks : ∀ k amount, l.tokenLocks.get? k = some amount → ∃ t, l.tokens.get? k.1.1 = some t

/-- What is listed of a token is what is outstanding of it. -/
theorem outstanding_eq_listed (l : Ledger) (id : TokenId) :
    l.outstanding id =
      ((l.tokenBalances.within id).map fun e => e.2.toNat).sum + heldIn (l.locks id) := by
  unfold outstanding total heldIn locks
  rw [within_eq_filterMap]
  congr 1
  · refine sumOf_eq_filterMap (fun e => ?_) _
    unfold balanceShare
    split <;> rfl
  · refine sumOf_eq_filterMap (fun e => ?_) _
    unfold lockShare
    split <;> rfl

theorem Conserved.supplyHolds {l : Ledger} (h : l.Conserved) : SupplyHolds l := by
  intro id
  refine ⟨_, _, _, rfl, rfl, rfl, ?_⟩
  have hsupply := h.supply id
  unfold issued at hsupply
  cases ht : l.tokens.get? id with
  | some t =>
    rw [ht, outstanding_eq_listed] at hsupply
    exact hsupply
  | none =>
    constructor
    · rw [List.eq_nil_iff_forall_not_mem]
      intro e he
      obtain ⟨t, ht'⟩ := h.balances _ _ (mem_within.mp he)
      rw [ht] at ht'
      cases ht'
    · rw [List.eq_nil_iff_forall_not_mem]
      intro k hk
      obtain ⟨e, he, hsome⟩ := List.mem_filterMap.mp hk
      split at hsome
      · next hid =>
        obtain ⟨t, ht'⟩ := h.locks e.1 e.2 (get?_of_mem he)
        rw [hid, ht] at ht'
        cases ht'
      · cases hsome

def available (l : Ledger) (token : TokenId) (holder : KeyId) : UInt64 :=
  (l.tokenBalances.get? (token, holder)).getD 0

/-- Nothing is available of a token without a record. -/
theorem Conserved.available_of_free {l : Ledger} (h : l.Conserved) {id : TokenId}
    (hnone : l.tokens.get? id = none) (holder : KeyId) : l.available id holder = 0 := by
  have hbalance : l.tokenBalances.get? (id, holder) = none := by
    rw [Option.eq_none_iff_forall_ne_some]
    intro a ha
    obtain ⟨t, ht⟩ := h.balances _ _ ha
    exact absurd (hnone.symm.trans ht) nofun
  unfold available
  rw [hbalance]
  rfl

theorem Conserved.locksOf_of_free {l : Ledger} (h : l.Conserved) {id : TokenId}
    (hnone : l.tokens.get? id = none) (holder : KeyId) : l.locksOf id holder = [] := by
  rw [List.eq_nil_iff_forall_not_mem]
  intro k hk
  obtain ⟨e, he, rfl⟩ := List.mem_map.mp hk
  obtain ⟨t, ht⟩ := h.locks _ _ (mem_within.mp he)
  exact absurd (hnone.symm.trans ht) nofun

theorem share_balance (l : Ledger) (id token : TokenId) (holder : KeyId) :
    share (balanceShare id) (token, holder) (l.tokenBalances.get? (token, holder)) =
      if token = id then (l.available token holder).toNat else 0 := by
  unfold available
  cases l.tokenBalances.get? (token, holder) <;> simp [balanceShare]

theorem toNat_available_le (l : Ledger) (token : TokenId) (holder : KeyId) :
    (l.available token holder).toNat ≤ total (balanceShare token) l.tokenBalances := by
  have h := share_le_total (balanceShare token) l.tokenBalances (token, holder)
  rw [share_balance, if_pos rfl] at h
  exact h

theorem issued_lt_size (l : Ledger) (id : TokenId) : l.issued id < UInt64.size := by
  unfold issued
  cases l.tokens.get? id with
  | none => exact Nat.two_pow_pos 64
  | some t => exact t.total.toNat_lt_size

section Balance

variable (l : Ledger) (token : TokenId) (holder : KeyId) (amount : UInt64)

@[simp] theorem tokens_withBalance : (l.withBalance token holder amount).tokens = l.tokens := by
  unfold withBalance
  split <;> rfl

@[simp] theorem tokenLocks_withBalance :
    (l.withBalance token holder amount).tokenLocks = l.tokenLocks := by
  unfold withBalance
  split <;> rfl

theorem tokenBalances_withBalance :
    (l.withBalance token holder amount).tokenBalances =
      if amount = 0 then l.tokenBalances.erase (token, holder)
      else l.tokenBalances.insert (token, holder) amount := by
  unfold withBalance
  split <;> rfl

/-- Setting a balance replaces what it counted before. -/
theorem outstanding_withBalance (id : TokenId) :
    (l.withBalance token holder amount).outstanding id +
        (if token = id then (l.available token holder).toNat else 0) =
      l.outstanding id + if token = id then amount.toNat else 0 := by
  have hshare := share_balance l id token holder
  unfold outstanding
  rw [tokenBalances_withBalance, tokenLocks_withBalance]
  by_cases hzero : amount = 0
  · have herase := total_erase (balanceShare id) l.tokenBalances (token, holder)
    rw [if_pos hzero]
    subst hzero
    simp only [UInt64.toNat_zero, ite_self]
    omega
  · have hinsert := total_insert (balanceShare id) l.tokenBalances (token, holder) amount
    have hnew : balanceShare id (token, holder) amount =
        if token = id then amount.toNat else 0 := rfl
    rw [if_neg hzero]
    omega

theorem get?_withBalance {k : TokenId × KeyId} {a : UInt64}
    (h : (l.withBalance token holder amount).tokenBalances.get? k = some a) :
    k.1 = token ∨ l.tokenBalances.get? k = some a := by
  rw [tokenBalances_withBalance] at h
  by_cases hk : k = (token, holder)
  · exact .inl (by rw [hk])
  · right
    split at h
    · rwa [get?_erase_ne _ hk] at h
    · rwa [get?_insert_ne _ _ hk] at h

end Balance

def unlocked (l : Ledger) (locks : List TokenLock) : Ledger :=
  { l with tokenLocks := locks.foldl (fun m k => m.erase k.key) l.tokenLocks }

theorem unlocked_cons (l : Ledger) (k : TokenLock) (locks : List TokenLock) :
    l.unlocked (k :: locks) =
      { l with tokenLocks := l.tokenLocks.erase k.key }.unlocked locks := rfl

structure Kept (l : Ledger) (token : TokenId) (holder : KeyId) (locks : List TokenLock) : Prop where
  token : ∀ k ∈ locks, k.token = token
  holder : ∀ k ∈ locks, k.holder = holder
  stored : ∀ k ∈ locks, l.tokenLocks.get? k.key = some k.amount
  distinct : locks.Pairwise fun j k => j.expiry ≠ k.expiry

variable {l : Ledger} {token : TokenId} {holder : KeyId}

/-- The locks that a holder has are kept as they are listed. -/
theorem kept_locksOf (l : Ledger) (token : TokenId) (holder : KeyId) :
    l.Kept token holder (l.locksOf token holder) where
  token := by
    rintro k hk
    obtain ⟨e, _, rfl⟩ := List.mem_map.mp hk
    rfl
  holder := by
    rintro k hk
    obtain ⟨e, _, rfl⟩ := List.mem_map.mp hk
    rfl
  stored := by
    intro k hk
    obtain ⟨e, he, rfl⟩ := List.mem_map.mp hk
    exact mem_within.mp he
  distinct := by
    unfold locksOf
    rw [List.pairwise_map]
    exact (within_ascending _ _).imp KeyOrder.ne_of_before

theorem Kept.filter {locks : List TokenLock} (h : l.Kept token holder locks)
    (p : TokenLock → Bool) : l.Kept token holder (locks.filter p) where
  token k hk := h.token k (List.mem_filter.mp hk).1
  holder k hk := h.holder k (List.mem_filter.mp hk).1
  stored k hk := h.stored k (List.mem_filter.mp hk).1
  distinct := h.distinct.filter p

/-- Taking one lock leaves the others as they are kept. -/
theorem Kept.tail {k : TokenLock} {locks : List TokenLock} (h : l.Kept token holder (k :: locks)) :
    { l with tokenLocks := l.tokenLocks.erase k.key }.Kept token holder locks where
  token j hj := h.token j (List.mem_cons_of_mem k hj)
  holder j hj := h.holder j (List.mem_cons_of_mem k hj)
  stored j hj := by
    have hne : j.key ≠ k.key := fun e =>
      (List.pairwise_cons.mp h.distinct).1 j hj (Prod.mk.inj e).2.symm
    rw [get?_erase_ne _ hne]
    exact h.stored j (List.mem_cons_of_mem k hj)
  distinct := (List.pairwise_cons.mp h.distinct).2

/-- Kept locks count in full for their token. -/
theorem Kept.total_unlocked {locks : List TokenLock} (h : l.Kept token holder locks)
    (id : TokenId) :
    total (lockShare id) (l.unlocked locks).tokenLocks + (if token = id then heldIn locks else 0) =
      total (lockShare id) l.tokenLocks := by
  induction locks generalizing l with
  | nil => simp [unlocked]
  | cons k rest ih =>
    have hrest := ih h.tail
    have herase := total_erase (lockShare id) l.tokenLocks k.key
    rw [h.stored k List.mem_cons_self] at herase
    have hshare : share (lockShare id) k.key (some k.amount) =
        if token = id then k.amount.toNat else 0 := by
      rw [share_some, lockShare, TokenLock.key, h.token k List.mem_cons_self]
    rw [unlocked_cons, heldIn_cons]
    split at hrest <;> simp_all only [if_true, if_false] <;> omega

theorem get?_unlocked {locks : List TokenLock} {k : (TokenId × KeyId) × Height} {a : UInt64}
    (h : (l.unlocked locks).tokenLocks.get? k = some a) : l.tokenLocks.get? k = some a := by
  induction locks generalizing l with
  | nil => exact h
  | cons j rest ih =>
    have hrest := ih (l := { l with tokenLocks := l.tokenLocks.erase j.key }) h
    rw [get?_erase] at hrest
    split at hrest
    · cases hrest
    · exact hrest

theorem get?_unlocked_of_ne {locks : List TokenLock} {k : (TokenId × KeyId) × Height}
    (h : ∀ j ∈ locks, j.key ≠ k) : (l.unlocked locks).tokenLocks.get? k = l.tokenLocks.get? k := by
  induction locks generalizing l with
  | nil => rfl
  | cons j rest ih =>
    rw [unlocked_cons, ih fun i hi => h i (List.mem_cons_of_mem j hi)]
    exact get?_erase_ne _ (h j List.mem_cons_self).symm

def withLock (l : Ledger) (k : TokenLock) (amount : UInt64) : Ledger :=
  { l with
    tokenLocks := l.tokenLocks.insert k.key amount
    heldTokens := l.heldTokens.add (k.holder, k.token) }

def lockedAt (l : Ledger) (k : TokenLock) : UInt64 := (l.tokenLocks.get? k.key).getD 0

theorem share_lock (l : Ledger) (id : TokenId) (k : TokenLock) :
    share (lockShare id) k.key (l.tokenLocks.get? k.key) =
      if k.token = id then (l.lockedAt k).toNat else 0 := by
  unfold lockedAt
  cases l.tokenLocks.get? k.key <;> simp [lockShare, TokenLock.key]

theorem toNat_lockedAt_le (l : Ledger) (k : TokenLock) :
    (l.lockedAt k).toNat ≤ total (lockShare k.token) l.tokenLocks := by
  have h := share_le_total (lockShare k.token) l.tokenLocks k.key
  rw [share_lock, if_pos rfl] at h
  exact h

theorem outstanding_withLock (l : Ledger) (k : TokenLock) (amount : UInt64) (id : TokenId) :
    (l.withLock k amount).outstanding id +
        (if k.token = id then (l.lockedAt k).toNat else 0) =
      l.outstanding id + if k.token = id then amount.toNat else 0 := by
  have hshare := share_lock l id k
  have hinsert := total_insert (lockShare id) l.tokenLocks k.key amount
  have hnew : lockShare id k.key amount = if k.token = id then amount.toNat else 0 := rfl
  unfold outstanding withLock
  dsimp only
  omega

theorem get?_withLock {k : TokenLock} {amount a : UInt64} {j : (TokenId × KeyId) × Height}
    (h : (l.withLock k amount).tokenLocks.get? j = some a) :
    j.1.1 = k.token ∨ l.tokenLocks.get? j = some a := by
  by_cases hj : j = k.key
  · exact .inl (by rw [hj]; rfl)
  · right
    rwa [withLock, get?_insert_ne _ _ hj] at h

end Ledger

end CivicLedger
