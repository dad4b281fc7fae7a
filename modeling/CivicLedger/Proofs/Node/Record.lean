import CivicLedger.Node.Sync
import CivicLedger.Proofs.Chain.Resume

/-!
# Recording balances

A node writes the balances that come with a block before it applies the block. Writing them again
changes nothing, balances of later blocks are not overwritten, and a node opened over a store works
with the balances that the store has recorded.
-/

namespace CivicLedger

open Program SortedMap

namespace Coins

def NoZero (c : Coins) : Prop := ∀ a, c.get? a ≠ some 0

theorem get?_put (c : Coins) (address : KeyId) (amount : UInt64) (k : KeyId) :
    (c.put address amount).get? k =
      if k = address then if amount = 0 then none else some amount else c.get? k := by
  unfold put
  by_cases hzero : amount = 0
  · simp only [hzero, if_true]
    exact get?_erase c address k
  · simp only [hzero, if_false]
    exact get?_insert c address k amount

/-- An address is either left as it is by any update, or set to the same by any. -/
theorem update_cases (changes : List (KeyId × UInt64)) (k : KeyId) :
    (∀ c : Coins, (c.update changes).get? k = c.get? k) ∨
      ∀ c d : Coins, (c.update changes).get? k = (d.update changes).get? k := by
  induction changes with
  | nil => exact .inl fun _ => rfl
  | cons e rest ih =>
    have hcons (c : Coins) : c.update (e :: rest) = (c.put e.1 e.2).update rest := rfl
    rcases ih with hleft | hset
    · by_cases hk : k = e.1
      · right
        intro c d
        rw [hcons, hcons, hleft, hleft, get?_put, get?_put, if_pos hk, if_pos hk]
      · left
        intro c
        rw [hcons, hleft, get?_put, if_neg hk]
    · right
      intro c d
      rw [hcons, hcons]
      exact hset _ _

/-- Balances that are set again stay as they are. -/
theorem update_update (c : Coins) (changes : List (KeyId × UInt64)) :
    (c.update changes).update changes = c.update changes := by
  apply ext
  intro k
  rcases update_cases changes k with hleft | hset
  · exact hleft _
  · exact hset _ _

theorem NoZero.update {c : Coins} (h : c.NoZero) (changes : List (KeyId × UInt64)) :
    (c.update changes).NoZero := by
  induction changes generalizing c with
  | nil => exact h
  | cons e rest ih =>
    refine ih fun k => ?_
    rw [get?_put]
    split
    · split
      · exact nofun
      · next hne => exact fun hsome => hne (Option.some.inj hsome)
    · exact h k

end Coins

/-- Without entries of zero the recorded balances are taken over as they are. -/
theorem Sheet.ofRecorded_entries {c : Coins} (h : c.NoZero) (height : Height) :
    Sheet.ofRecorded height c.entries = ⟨height, c⟩ := by
  have hall : c.entries.filter (fun e => 0 < e.2) = c.entries := by
    rw [List.filter_eq_self]
    intro e he
    have hne : e.2 ≠ 0 := by
      intro hzero
      have hget := get?_of_mem he
      rw [hzero] at hget
      exact h e.1 hget
    exact decide_eq_true (UInt64.pos_iff_ne_zero.mpr hne)
  unfold Sheet.ofRecorded
  rw [hall, ofList_entries]

namespace Ledger

variable {l : Ledger}

def withCoins (l : Ledger) (coins : Coins) (point : Option ChainPoint) : Ledger :=
  { l with coinBalances := coins, synced := point }

def recorded (l : Ledger) (u : Update) : Ledger :=
  l.withCoins (Coins.update l.coinBalances u.changes) (some u.block.point)

def underway (l : Ledger) (u : Update) : Ledger :=
  (l.recorded u).entered u.block (l.recorded u).coinBalances l.cursor

def isLater (l : Ledger) (u : Update) : Bool :=
  match l.synced with
  | some point => u.block.height < point.height
  | none => false

def noted (l : Ledger) (u : Update) : Ledger := if l.isLater u then l else l.recorded u

/-- Recording the same balances over any others gives the same ledger. -/
theorem recorded_recorded (l : Ledger) (u : Update) : (l.recorded u).recorded u = l.recorded u := by
  change l.withCoins (Coins.update (Coins.update l.coinBalances u.changes) u.changes) _ = _
  rw [Coins.update_update]
  rfl

theorem Sound.withCoins (h : l.Sound) (coins : Coins) (point : Option ChainPoint) :
    (l.withCoins coins point).Sound :=
  ⟨h.conserved.congr rfl, h.numbered.congr rfl, h.scheduled.congr rfl⟩

theorem Stands.withCoins {b : Block} {n : Nat} (h : Stands b n l) (coins : Coins)
    (point : Option ChainPoint) : Stands b n (l.withCoins coins point) :=
  ⟨h.sound.withCoins coins point, h.cursor, h.quiet⟩

theorem recordEdits_apply (u : Update) (l : Ledger) :
    Node.recordEdits u l = .ok () (l.recorded u) := by
  have hchanges (changes : List (KeyId × UInt64)) (l : Ledger) :
      (changes.forM fun e => LedgerEdits.setCoinBalance e.1 e.2) l =
        .ok () (l.withCoins (Coins.update l.coinBalances changes) l.synced) := by
    induction changes generalizing l with
    | nil => rfl
    | cons e rest ih =>
      have hput : LedgerEdits.setCoinBalance e.1 e.2 l =
          .ok () (l.withCoins (Coins.put l.coinBalances e.1 e.2) l.synced) := by
        have hset := setCoinBalance_apply (l := l) e.1 e.2
        exact hset
      exact (bind_ok hput _).trans (ih _)
  unfold Node.recordEdits
  exact (bind_ok (hchanges u.changes l) _).trans rfl

structure Above (l : Ledger) (u : Update) : Prop where
  cursor : ∀ c, l.cursor = some c → c.height < u.block.height
  synced : ∀ p, l.synced = some p → p.height < u.block.height

theorem Above.not_isLater {u : Update} (h : l.Above u) : ¬ l.isLater u = true := by
  unfold isLater
  cases hs : l.synced with
  | none => exact Bool.false_ne_true
  | some point =>
    have hlt := h.synced point hs
    rw [decide_eq_true_eq]
    exact UInt64.not_lt.mpr (UInt64.le_of_lt hlt)

theorem Above.enters {u : Update} (h : l.Above u) : Chain.entersBlock l.cursor u.block = true := by
  cases hc : l.cursor with
  | none => rfl
  | some c => exact decide_eq_true (h.cursor c hc)

/-- Updates below the recorded block leave the ledger as it is. -/
theorem foldl_noted_of_later {us : List Update} (h : ∀ u ∈ us, l.isLater u = true) :
    us.foldl noted l = l := by
  induction us with
  | nil => rfl
  | cons u rest ih =>
    have hu : l.noted u = l := if_pos (h u List.mem_cons_self)
    rw [List.foldl_cons, hu]
    exact ih fun v hv => h v (List.mem_cons_of_mem u hv)

/-- Updates above the recorded block are all recorded. -/
theorem foldl_noted (l : Ledger) {us : List Update} (c : Coins) (p : Option ChainPoint)
    (hus : us.Pairwise fun u v => u.block.height < v.block.height)
    (hp : ∀ x, p = some x → ∀ u ∈ us, x.height < u.block.height) :
    ∃ q, us.foldl noted (l.withCoins c p) =
        l.withCoins (us.foldl (fun c u => Coins.update c u.changes) c) q ∧
      ∀ x, q = some x → p = some x ∨ ∃ u ∈ us, u.block.height = x.height := by
  induction us generalizing c p with
  | nil => exact ⟨p, rfl, fun x hx => .inl hx⟩
  | cons u rest ih =>
    obtain ⟨hu, hrest⟩ := List.pairwise_cons.mp hus
    have hnot : (l.withCoins c p).isLater u = false := by
      cases hcase : p with
      | none => rfl
      | some x =>
        have hlt := hp x hcase u List.mem_cons_self
        exact decide_eq_false (UInt64.not_lt.mpr (UInt64.le_of_lt hlt))
    have hnoted : (l.withCoins c p).noted u =
        l.withCoins (c.update u.changes) (some u.block.point) :=
      if_neg (by rw [hnot]; exact Bool.false_ne_true)
    obtain ⟨q, hfold, hq⟩ := ih (c.update u.changes) (some u.block.point) hrest (by
      intro x hx v hv
      cases hx
      exact hu v hv)
    refine ⟨q, ?_, ?_⟩
    · rw [List.foldl_cons, hnoted, hfold]
      rfl
    · intro x hx
      right
      rcases hq x hx with hpoint | ⟨v, hv, hheight⟩
      · cases hpoint
        exact ⟨u, List.mem_cons_self, rfl⟩
      · exact ⟨v, List.mem_cons_of_mem u hv, hheight⟩

end Ledger

namespace Node

theorem recordBalances_eq (n : Node Ledger) (u : Update) :
    n.recordBalances u =
      if n.store.isLater u then .ok n
      else .ok { n with
        store := n.store.recorded u
        sheet := n.sheet.update u.block.height u.changes } := by
  have hread : readStore (LedgerReads.synced? n.store) = .ok n.store.synced := rfl
  unfold recordBalances
  rw [hread, Ledger.recordEdits_apply]
  rfl

/-- Balances of a later block are left as they are. -/
theorem recordBalances_of_later {n : Node Ledger} {u : Update} (hlater : n.store.isLater u = true) :
    n.recordBalances u = .ok n := by
  rw [recordBalances_eq, if_pos hlater]

/-- Where no later balances are recorded, those of the update are, and the sheet has them too. -/
theorem recordBalances_of_not_later {n : Node Ledger} {u : Update}
    (hsheet : n.sheet.coins = n.store.coinBalances) (hlater : ¬ n.store.isLater u = true) :
    n.recordBalances u = .ok { n with
      store := n.store.recorded u
      sheet := ⟨u.block.height, (n.store.recorded u).coinBalances⟩ } := by
  rw [recordBalances_eq, if_neg hlater]
  unfold Sheet.update
  rw [hsheet]
  rfl

/-- A node that works with the balances that its store has recorded goes on doing so. -/
theorem exists_recordBalances {n : Node Ledger} (h : n.sheet.coins = n.store.coinBalances)
    (u : Update) : ∃ m, n.recordBalances u = .ok m ∧ m.store = n.store.noted u ∧
      m.sheet.coins = m.store.coinBalances ∧ m.applicant = n.applicant := by
  rw [recordBalances_eq]
  unfold Ledger.noted
  by_cases hlater : n.store.isLater u = true
  · rw [if_pos hlater, if_pos hlater]
    exact ⟨n, rfl, rfl, h, rfl⟩
  · rw [if_neg hlater, if_neg hlater]
    refine ⟨_, rfl, rfl, ?_, rfl⟩
    unfold Sheet.update
    rw [h]
    rfl

section

variable {σ : Type} [LedgerEdits σ] {n m : Node σ} {u : Update}

/-- An update whose block fails the check leaves the node as it was. -/
theorem deliver_of_check_error {fault : ChainFault} (fees : FeeSchedule)
    (hcheck : Chain.check n.applicant u.block = .error fault) :
    deliver fees n u = ⟨.error (.chain fault), n, Notice.ofFault u.block.height fault⟩ := by
  unfold deliver
  rw [hcheck]

/-- Any other update is applied after its balances are recorded. -/
theorem deliver_of_recorded (fees : FeeSchedule) (hcheck : Chain.check n.applicant u.block = .ok ())
    (hrecord : n.recordBalances u = .ok m) :
    (deliver fees n u).node.store =
        (Chain.apply fees m.applicant u.block m.sheet.coins m.store).store ∧
      (deliver fees n u).node.sheet = m.sheet := by
  unfold deliver
  rw [hcheck]
  simp only [hrecord]
  split <;> exact ⟨rfl, rfl⟩

end

end Node

end CivicLedger
