import CivicLedger.Proofs.Chain.Soundness

/-!
# Taking up a block

Within a block the cursor stands behind the transactions that have been applied, and no bill is due
at the time of the block. A block that comes again is therefore taken up where it was left: nothing
is settled once more, what is behind the cursor is passed, and the rest is applied.
-/

namespace CivicLedger

open Program Chain SortedMap

/-- A block before the end of time whose transactions are counted from zero. -/
structure Block.InOrder (b : Block) : Prop where
  time : b.time < Word.max
  few : b.txs.length < UInt32.size - 1
  indices : ∀ (i : Nat) (tx : Tx), b.txs[i]? = some tx → tx.index.toNat = i

namespace Chain

theorem misplaced?_eq_none {previous : Option UInt32} {txs : List Tx} {n : Nat}
    (hprevious : ∀ p, previous = some p → p.toNat < n)
    (h : ∀ (i : Nat) (tx : Tx), txs[i]? = some tx → tx.index.toNat = n + i) :
    misplaced? previous txs = none := by
  induction txs generalizing previous n with
  | nil => cases previous <;> rfl
  | cons tx rest ih =>
    have hindex := h 0 tx rfl
    have hrest : misplaced? (some tx.index) rest = none := by
      refine ih (n := n + 1) ?_ ?_
      · intro p hp
        cases hp
        omega
      · intro i tx' htx
        have hi := h (i + 1) tx' htx
        omega
    cases previous with
    | none => exact hrest
    | some p =>
      have hlt := hprevious p rfl
      have hnot : ¬ tx.index ≤ p := by
        rw [UInt32.le_iff_toNat_le]
        omega
      simp only [misplaced?, hnot, if_false]
      exact hrest

/-- A block in order is taken by an applicant that is going on and has come less far. -/
theorem check_eq_ok {a : Applicant} {b : Block} (hb : b.InOrder) (hgoing : a.halted = false)
    (hlast : ∀ last, a.last = some last → last < b.height) : check a b = .ok () := by
  have hplaced : misplaced? none b.txs = none := by
    refine misplaced?_eq_none (n := 0) ?_ ?_
    · intro p hp
      cases hp
    · intro i tx htx
      rw [Nat.zero_add]
      exact hb.indices i tx htx
  unfold check
  rw [if_neg (by rw [hgoing]; exact Bool.false_ne_true), hplaced]
  cases hl : a.last with
  | none => rfl
  | some last =>
    have hnot : ¬ b.height < last := UInt64.not_lt.mpr (UInt64.le_of_lt (hlast last hl))
    simp only [hnot, if_false]
    rfl

end Chain

namespace Ledger

variable {l l' : Ledger} {b : Block}

def coinPart (l : Ledger) := (l.coinBalances, l.synced)

/-- A ledger within a block, behind the first `n` of its transactions. -/
structure Stands (b : Block) (n : Nat) (l : Ledger) : Prop where
  sound : l.Sound
  cursor : l.cursor = some ⟨b.height, UInt32.ofNat n⟩
  quiet : l.billsDue b.time = []

theorem coinPart_enact (l : Ledger) (e : Effect) : (l.enact e).coinPart = l.coinPart := by
  cases e with
  | voteDelegates voter delegates => rw [enact_voteDelegates, coinPart, coinPart]
  | revokeDelegates voter delegates => rw [enact_revokeDelegates, coinPart, coinPart]
  | createToken t => rw [enact_createToken, coinPart, coinPart]
  | transferToken d => rw [enact_transferToken, coinPart, coinPart]
  | lockToken d expiry => rw [enact_lockToken, coinPart, coinPart]
  | _ => rfl

theorem coinPart_entered (l : Ledger) (b : Block) (coins : Coins) (cursor : Option Cursor) :
    (l.entered b coins cursor).coinPart = l.coinPart := by
  refine keeps_entered b coins coinPart (fun m id => ?_) (fun _ _ => rfl) l cursor
  unfold closed
  split <;> rfl

theorem Processed.coinPart {tx : Tx} {outcome : TxOutcome} (h : l.Processed b tx outcome l') :
    l'.coinPart = l.coinPart := by
  cases h with
  | unchanged _ => rfl
  | enacted _ _ _ => exact coinPart_enact l _

/-- What a transaction submits closes later, so that it makes nothing due. -/
theorem Processed.quiet {tx : Tx} {outcome : TxOutcome} (h : l.Processed b tx outcome l')
    (htime : b.time < Word.max) (hquiet : l.billsDue b.time = []) : l'.billsDue b.time = [] := by
  rw [List.eq_nil_iff_forall_not_mem] at hquiet ⊢
  cases h with
  | unchanged _ => exact hquiet
  | @enacted op effect _ hassess room =>
    intro id hid
    obtain ⟨closes, hle, hdue⟩ := mem_billsDue.mp hid
    by_cases he : ∃ bill, effect = .submitBill bill
    · obtain ⟨bill, rfl⟩ := he
      have hlater := lt_closes_of_assess hassess htime
      simp only [enact, SortedSet.add, contains_eq_true, get?_insert] at hdue
      obtain ⟨u, hu⟩ := hdue
      split at hu
      · next heq =>
        cases heq
        exact UInt64.not_le.mpr hlater hle
      · exact hquiet id (mem_billsDue.mpr ⟨closes, hle, contains_eq_true.mpr ⟨u, hu⟩⟩)
    · have hkept := billPart_enact (l := l) fun bill hb => he ⟨bill, hb⟩
      have hsame : (l.enact effect).dueBills = l.dueBills :=
        (Prod.mk.inj (Prod.mk.inj hkept).2).2
      rw [hsame] at hdue
      exact hquiet id (mem_billsDue.mpr ⟨closes, hle, hdue⟩)

theorem Sound.stands_entered (h : l.Sound) (b : Block) (coins : Coins)
    (hnext : entersBlock l.cursor b = true) : Stands b 0 (l.entered b coins l.cursor) := by
  refine ⟨h.entered b coins l.cursor, ?_, ?_⟩
  · unfold Ledger.entered
    rw [if_pos hnext]
    rfl
  · unfold Ledger.entered
    rw [if_pos hnext]
    exact h.scheduled.billsDue_settledAll b coins

theorem toNat_place {b : Block} (hb : b.InOrder) {n : Nat} (hn : n ≤ b.txs.length) :
    (UInt32.ofNat n).toNat = n := by
  have hfew := hb.few
  have hsize : UInt32.size = 4294967296 := rfl
  rw [UInt32.toNat_ofNat', Nat.mod_eq_of_lt (by omega)]

theorem Stands.next {n : Nat} {tx : Tx} {fees : FeeSchedule} {outcome : TxOutcome} (hb : b.InOrder)
    (h : Stands b n l) (htx : b.txs[n]? = some tx) (happly : applyTx fees b tx l = .ok outcome l') :
    Stands b (n + 1) l' ∧ l'.coinPart = l.coinPart := by
  obtain ⟨mid, hmid, rfl⟩ := h.sound.processed_of_applyTx happly
  refine ⟨⟨(hmid.sound h.sound).withCursor _, ?_, hmid.quiet hb.time h.quiet⟩, hmid.coinPart⟩
  have hindex := hb.indices n tx htx
  have hlt := (List.getElem?_eq_some_iff.mp htx).1
  have hfew := hb.few
  have hplace := toNat_place hb (Nat.succ_le_of_lt hlt)
  have hafter : indexAfter tx.index = UInt32.ofNat (n + 1) := by
    unfold indexAfter
    rw [if_pos (by omega)]
    apply UInt32.toNat_inj.mp
    have hsize : UInt32.size = 4294967296 := rfl
    have hone : (1 : UInt32).toNat = 1 := rfl
    rw [hplace, UInt32.toNat_add, hone, hindex, Nat.mod_eq_of_lt (by omega)]
  rw [hafter]

theorem Stands.taken {fees : FeeSchedule} {done xs rest : List Tx} (hb : b.InOrder)
    (hsplit : b.txs = done ++ xs ++ rest) (h : Stands b done.length l) (ht : Taken fees b xs l l') :
    Stands b (done ++ xs).length l' ∧ l'.coinPart = l.coinPart := by
  induction xs generalizing done l with
  | nil =>
    cases ht
    rw [List.append_nil]
    exact ⟨h, rfl⟩
  | cons tx xs ih =>
    cases ht with
    | cons happly ht =>
      have hplace : b.txs[done.length]? = some tx := by
        rw [hsplit]
        simp
      obtain ⟨hnext, hcoins⟩ := h.next hb hplace happly
      have hsplit' : b.txs = (done ++ [tx]) ++ xs ++ rest := by
        rw [hsplit]
        simp
      have hlength : (done ++ [tx]).length = done.length + 1 := by simp
      rw [← hlength] at hnext
      obtain ⟨hstands, hkept⟩ := ih hsplit' hnext ht
      rw [List.append_assoc] at hstands
      exact ⟨hstands, hkept.trans hcoins⟩

theorem applyChecked_eq {fees : FeeSchedule} {coins : Coins}
    (h : ∀ c, l.cursor = some c → ¬ b.height < c.height) :
    applyChecked fees b coins l = applyBody fees b coins l.cursor l := by
  have hread : Step.read LedgerReads.cursor? l = .ok l.cursor l := read_of_ok rfl
  unfold applyChecked
  refine (bind_ok hread _).trans ?_
  cases hc : l.cursor with
  | none => rfl
  | some c => exact congrFun (if_neg (h c hc)) l

/-- A block behind the cursor is skipped. -/
theorem applyChecked_of_lt {fees : FeeSchedule} {coins : Coins} {c : Cursor}
    (hc : l.cursor = some c) (hlt : b.height < c.height) :
    applyChecked fees b coins l = .ok ⟨b.height, [], [], true⟩ l := by
  have hread : Step.read LedgerReads.cursor? l = .ok (some c) l := read_of_ok (congrArg _ hc)
  unfold applyChecked
  exact (bind_ok hread _).trans (congrFun (if_pos hlt) l)

theorem applyBody_ok {fees : FeeSchedule} {coins : Coins} {cursor : Option Cursor} {mid : Ledger}
    {settled : List (BillId × Settlement)} {outcomes : List (UInt32 × TxOutcome)}
    (henter : enter b coins cursor l = .ok settled mid)
    (htxs : b.txs.mapM (applyOrPass fees b cursor) mid = .ok outcomes l') :
    applyBody fees b coins cursor l = .ok ⟨b.height, outcomes, settled, false⟩ l' :=
  (bind_ok henter _).trans ((bind_ok htxs _).trans rfl)

/-- A block that is not behind the cursor is entered and goes through all its transactions. -/
theorem Sound.mapM_of_applyChecked (h : l.Sound) {fees : FeeSchedule} {coins : Coins}
    {report : BlockReport} (hcursor : ∀ c, l.cursor = some c → ¬ b.height < c.height)
    (hrun : applyChecked fees b coins l = .ok report l') :
    report.skipped = false ∧ ∃ outcomes,
      b.txs.mapM (applyOrPass fees b l.cursor) (l.entered b coins l.cursor) = .ok outcomes l' := by
  obtain ⟨settled, _, henter⟩ := h.scheduled.enter_apply b coins l.cursor
  rw [applyChecked_eq hcursor] at hrun
  obtain ⟨settled', mid, henter', hrest⟩ := bind_eq_ok.mp hrun
  rw [henter] at henter'
  cases henter'
  obtain ⟨outcomes, k, htxs, hpure⟩ := bind_eq_ok.mp hrest
  obtain ⟨rfl, rfl⟩ := pure_eq_ok.mp hpure
  exact ⟨rfl, outcomes, htxs⟩

/-- A block that comes for the first time is entered and its transactions are applied, or the
numbers of tokens are used up on the way. -/
theorem Sound.applyChecked_next (h : l.Sound) (fees : FeeSchedule) (coins : Coins)
    (hnext : entersBlock l.cursor b = true) :
    (∃ report l', applyChecked fees b coins l = .ok report l' ∧ report.skipped = false ∧
      Taken fees b b.txs (l.entered b coins l.cursor) l') ∨
    ∃ fault l', applyChecked fees b coins l = .error fault l' ∧ fault.isFatal = true ∧
      l'.IsFull := by
  have hends := ends_applyChecked_sound fees b coins l h
  cases hrun : applyChecked fees b coins l with
  | error fault l' =>
    rw [hrun] at hends
    exact .inr ⟨fault, l', rfl, hends.2.2, hends.2.1⟩
  | ok report l' =>
    obtain ⟨hskipped, htxs⟩ := h.mapM_of_applyChecked (not_lt_of_enters hnext) hrun
    refine .inl ⟨report, l', rfl, hskipped, ?_⟩
    exact (exists_mapM_iff fun tx _ => not_covered_of_enters hnext tx).mp htxs

/-- A block that comes again is taken up behind the cursor, whatever the balances. -/
theorem Stands.applyChecked_again {fees : FeeSchedule} {done rest : List Tx} (hb : b.InOrder)
    (hsplit : b.txs = done ++ rest) (h : Stands b done.length l) (ht : Taken fees b rest l l')
    (coins : Coins) :
    ∃ report, applyChecked fees b coins l = .ok report l' ∧ report.skipped = false := by
  have hnot : ¬ b.height < b.height := UInt64.lt_irrefl b.height
  have hlength : done.length ≤ b.txs.length := by
    rw [hsplit, List.length_append]
    exact Nat.le_add_right _ _
  have hplace := toNat_place hb hlength
  have hcovered {i : Nat} {tx : Tx} (htx : b.txs[i]? = some tx) :
      isCovered l.cursor b tx = decide (i < done.length) := by
    rw [h.cursor]
    simp [isCovered, Cursor.covers, UInt32.lt_iff_toNat_lt, hplace, hb.indices i tx htx]
  -- The cursor splits the transactions where the stop did: those done are passed, the rest is not.
  have hdone : ∀ tx ∈ done, isCovered l.cursor b tx = true := by
    intro tx htx
    obtain ⟨i, hi⟩ := List.mem_iff_getElem?.mp htx
    have hlt := (List.getElem?_eq_some_iff.mp hi).1
    have hat : b.txs[i]? = some tx := by rw [hsplit, List.getElem?_append_left hlt, hi]
    rw [hcovered hat]
    exact decide_eq_true hlt
  have hrest : ∀ tx ∈ rest, isCovered l.cursor b tx = false := by
    intro tx htx
    obtain ⟨i, hi⟩ := List.mem_iff_getElem?.mp htx
    have hat : b.txs[done.length + i]? = some tx := by
      rw [hsplit, List.getElem?_append_right (by omega), Nat.add_sub_cancel_left, hi]
    rw [hcovered hat]
    exact decide_eq_false (by omega)
  obtain ⟨passed, hpassed⟩ := mapM_of_covered fees l hdone
  obtain ⟨applied, happlied⟩ := (exists_mapM_iff hrest).mpr ht
  have hbody : applyChecked fees b coins l = applyBody fees b coins l.cursor l := by
    refine applyChecked_eq fun c hc => ?_
    rw [h.cursor] at hc
    cases hc
    exact hnot
  have henter : enter b coins l.cursor l = .ok [] l := by
    have hread : Step.read (LedgerReads.billsDue · b.time) l = .ok [] l :=
      read_of_ok (congrArg Except.ok h.quiet)
    unfold enter
    rw [atomically_eq_ok]
    refine (bind_ok hread _).trans ?_
    have hstays : entersBlock l.cursor b = false := by
      rw [h.cursor]
      exact decide_eq_false hnot
    simp only [hstays]
    rfl
  have htxs : b.txs.mapM (applyOrPass fees b l.cursor) l = .ok (passed ++ applied) l' := by
    rw [hsplit, List.mapM_append]
    exact (bind_ok hpassed _).trans ((bind_ok happlied _).trans rfl)
  exact ⟨_, hbody.trans (applyBody_ok henter htxs), rfl⟩

end Ledger

end CivicLedger
