import CivicLedger.Proofs.Chain.History
import CivicLedger.Proofs.Database.Cursors

/-!
# Positions of transactions

Whatever a store holds, whichever blocks come to it and however often the applicant is made anew,
the cursor never moves back, and the transactions that are applied stand one behind another. Only at
the largest index, behind which the cursor cannot move, can a transaction be applied again.
-/

namespace CivicLedger

open Program

namespace Chain

open LedgerReads LedgerEdits

section

variable {σ : Type} [LedgerEdits σ]

def txOutcomes (fees : FeeSchedule) (b : Block) (cursor : Option Cursor) :
    List Tx → σ → List (UInt32 × TxOutcome)
  | [], _ => []
  | tx :: rest, s =>
    match applyOrPass fees b cursor tx s with
    | .ok outcome s' => outcome :: txOutcomes fees b cursor rest s'
    | .error _ _ => []

def bodyOutcomes (fees : FeeSchedule) (b : Block) (coins : Coins) (cursor : Option Cursor)
    (s : σ) : List (UInt32 × TxOutcome) :=
  match enter b coins cursor s with
  | .ok _ s' => txOutcomes fees b cursor b.txs s'
  | .error _ _ => []

def blockOutcomes (fees : FeeSchedule) (b : Block) (coins : Coins) (s : σ) :
    List (UInt32 × TxOutcome) :=
  match cursor? s with
  | .error _ => []
  | .ok cursor =>
    if cursor.any fun c => b.height < c.height then [] else bodyOutcomes fees b coins cursor s

def Arrival.outcomes (c : Arrival) (a : Applicant) (s : σ) : List (UInt32 × TxOutcome) :=
  match check (c.applicant a) c.block with
  | .error _ => []
  | .ok () => blockOutcomes c.fees c.block c.coins s

def placesOf (b : Block) (outcomes : List (UInt32 × TxOutcome)) : List Cursor :=
  (outcomes.filter fun o => o.2 ≠ .alreadyApplied).map fun o => ⟨b.height, o.1⟩

def places (s₀ : σ) (arrivals : Nat → Arrival) : Nat → List Cursor
  | 0 => []
  | n + 1 => places s₀ arrivals n ++ placesOf (arrivals n).block
      ((arrivals n).outcomes (course s₀ arrivals n).1 (course s₀ arrivals n).2)

/-- How the cursor and the applied transactions stand while blocks come. -/
structure PassesInOrder (s₀ : σ) (arrivals : Nat → Arrival) : Prop where
  forward : ∀ m n, m ≤ n → ∀ c, cursor? (course s₀ arrivals m).2 = .ok (some c) →
    ∃ d, cursor? (course s₀ arrivals n).2 = .ok (some d) ∧ c.compare d ≠ .gt
  /-- A report tells all outcomes that are counted. -/
  reported : ∀ n report,
    ((arrivals n).apply (course s₀ arrivals n).1 (course s₀ arrivals n).2).result = .ok report →
    report.outcomes = (arrivals n).outcomes (course s₀ arrivals n).1 (course s₀ arrivals n).2
  ordered : ∀ n, (places s₀ arrivals n).Pairwise fun p q =>
    p.compare q = .lt ∨ p = q ∧ p.nextTx = Cursor.lastIndex
  strict : ∀ n, (∀ i < n, ∀ tx ∈ (arrivals i).block.txs, tx.index ≠ Cursor.lastIndex) →
    (places s₀ arrivals n).Pairwise fun p q => p.compare q = .lt

section

variable {fees : FeeSchedule} {b : Block} {cursor : Option Cursor} {txs : List Tx} {s s' : σ}

theorem mapM_eq_txOutcomes {outcomes : List (UInt32 × TxOutcome)}
    (h : txs.mapM (applyOrPass fees b cursor) s = .ok outcomes s') :
    outcomes = txOutcomes fees b cursor txs s := by
  induction txs generalizing s outcomes with
  | nil =>
    cases h
    rfl
  | cons tx rest ih =>
    obtain ⟨first, others, t, hfirst, hothers, rfl⟩ := mapM_cons_eq_ok.mp h
    rw [txOutcomes, hfirst, ih hothers]

theorem exists_tx_of_mem_txOutcomes {o : UInt32 × TxOutcome}
    (h : o ∈ txOutcomes fees b cursor txs s) : ∃ tx ∈ txs, o.1 = tx.index := by
  induction txs generalizing s with
  | nil => cases h
  | cons tx rest ih =>
    rw [txOutcomes] at h
    cases hrun : applyOrPass fees b cursor tx s with
    | error fault t => rw [hrun] at h; cases h
    | ok first t =>
      rw [hrun] at h
      rcases List.mem_cons.mp h with rfl | h
      · refine ⟨tx, List.mem_cons_self, ?_⟩
        unfold applyOrPass at hrun
        split at hrun
        · cases hrun
          rfl
        · obtain ⟨outcome, _, _, hpure⟩ := bind_eq_ok.mp hrun
          obtain ⟨rfl, _⟩ := pure_eq_ok.mp hpure
          rfl
      · obtain ⟨tx', htx, hindex⟩ := ih h
        exact ⟨tx', List.mem_cons_of_mem tx htx, hindex⟩

end

section

variable {fees : FeeSchedule} {b : Block} {coins : Coins} {cursor : Option Cursor} {s t : σ}
  {report : BlockReport}

theorem exists_tx_of_mem_bodyOutcomes {o : UInt32 × TxOutcome}
    (h : o ∈ bodyOutcomes fees b coins cursor s) : ∃ tx ∈ b.txs, o.1 = tx.index := by
  unfold bodyOutcomes at h
  cases henter : enter b coins cursor s with
  | error fault t => rw [henter] at h; cases h
  | ok settled t => rw [henter] at h; exact exists_tx_of_mem_txOutcomes h

theorem outcomes_of_applyBody (h : applyBody fees b coins cursor s = .ok report t) :
    report.outcomes = bodyOutcomes fees b coins cursor s := by
  obtain ⟨settled, mid, henter, h⟩ := bind_eq_ok.mp h
  obtain ⟨outcomes, _, htxs, hpure⟩ := bind_eq_ok.mp h
  obtain ⟨rfl, _⟩ := pure_eq_ok.mp hpure
  unfold bodyOutcomes
  rw [henter]
  exact mapM_eq_txOutcomes htxs

/-- A block fails before it does anything, or is skipped, or is taken from the cursor. -/
theorem applyChecked_cases (fees : FeeSchedule) (b : Block) (coins : Coins) (s : σ) :
    (∃ fault, applyChecked fees b coins s = .error fault s ∧ blockOutcomes fees b coins s = []) ∨
      (applyChecked fees b coins s = .ok ⟨b.height, [], [], true⟩ s ∧
        blockOutcomes fees b coins s = []) ∨
      ∃ cursor, cursor? s = .ok cursor ∧ (∀ c, cursor = some c → ¬ b.height < c.height) ∧
        applyChecked fees b coins s = applyBody fees b coins cursor s ∧
        blockOutcomes fees b coins s = bodyOutcomes fees b coins cursor s := by
  unfold applyChecked blockOutcomes
  cases hcursor : cursor? s with
  | error fault => exact .inl ⟨_, bind_error (read_of_error hcursor) _, rfl⟩
  | ok cursor =>
    rw [bind_ok (read_of_ok hcursor)]
    cases cursor with
    | none => exact .inr (.inr ⟨none, rfl, nofun, rfl, rfl⟩)
    | some c =>
      by_cases hbehind : b.height < c.height
      · exact .inr (.inl (by simp [hbehind]))
      · refine .inr (.inr ⟨some c, rfl, ?_, by simp [hbehind]⟩)
        rintro _ ⟨⟩
        exact hbehind

theorem outcomes_of_check {c : Arrival} {a : Applicant} (h : check (c.applicant a) c.block = .ok ())
    (s : σ) : c.outcomes a s = blockOutcomes c.fees c.block c.coins s := by
  unfold Arrival.outcomes
  rw [h]

theorem outcomes_of_ok {c : Arrival} {a : Applicant} (h : (c.apply a s).result = .ok report) :
    report.outcomes = c.outcomes a s := by
  unfold Arrival.apply Chain.apply at h
  cases hcheck : check (c.applicant a) c.block with
  | error fault => rw [hcheck] at h; cases h
  | ok _ =>
    rw [hcheck] at h
    rw [outcomes_of_check hcheck]
    dsimp only at h
    rcases applyChecked_cases c.fees c.block c.coins s with
      ⟨fault, hrun, _⟩ | ⟨hrun, hnone⟩ | ⟨cursor, _, _, hrun, hbody⟩
    · rw [hrun] at h
      cases h
    · rw [hrun] at h
      cases h
      exact hnone.symm
    · rw [hrun] at h
      rw [hbody]
      split at h
      · next happly =>
        cases h
        exact outcomes_of_applyBody happly
      · cases h

end

structure Advances (s t : σ) (ps : List Cursor) : Prop where
  forward : ∀ c, cursor? s = .ok (some c) →
    ∃ d, cursor? t = .ok (some d) ∧ c.rank ≤ d.rank
  ahead : ∀ c, cursor? s = .ok (some c) → ∀ p ∈ ps, c.rank ≤ p.rank
  passed : ∀ p ∈ ps, ∃ d, cursor? t = .ok (some d) ∧ p.next.rank ≤ d.rank
  ordered : ps.Pairwise fun p q => p.next.rank ≤ q.rank

namespace Advances

variable {s t u : σ} {ps qs : List Cursor} {c d : Cursor}

theorem of_kept (h : cursor? t = cursor? s) : Advances s t [] where
  forward c hc := ⟨c, h.trans hc, Nat.le_refl _⟩
  ahead := by simp
  passed := by simp
  ordered := .nil

theorem refl (s : σ) : Advances s s [] := of_kept rfl

/-- The cursor moves, past one position or none. -/
theorem of_moved (ht : cursor? t = .ok (some d)) (hle : ∀ c, cursor? s = .ok (some c) →
    c.rank ≤ d.rank) : Advances s t [] where
  forward c hc := ⟨d, ht, hle c hc⟩
  ahead := by simp
  passed := by simp
  ordered := .nil

theorem of_passed (hs : cursor? s = .ok (some c)) (ht : cursor? t = .ok (some d.next))
    (hle : c.rank ≤ d.rank) : Advances s t [d] where
  forward c' hc := by
    rw [hs] at hc
    cases hc
    exact ⟨d.next, ht, Nat.le_trans hle d.rank_le_rank_next⟩
  ahead c' hc p hp := by
    rw [hs] at hc
    cases hc
    rw [List.mem_singleton.mp hp]
    exact hle
  passed p hp := by
    rw [List.mem_singleton.mp hp]
    exact ⟨d.next, ht, Nat.le_refl _⟩
  ordered := List.pairwise_singleton _ _

theorem sublist (h : Advances s t ps) (hqs : qs.Sublist ps) : Advances s t qs where
  forward := h.forward
  ahead c hc p hp := h.ahead c hc p (hqs.subset hp)
  passed p hp := h.passed p (hqs.subset hp)
  ordered := h.ordered.sublist hqs

theorem trans (h : Advances s t ps) (h' : Advances t u qs) : Advances s u (ps ++ qs) where
  forward c hc := by
    obtain ⟨d, hd, hcd⟩ := h.forward c hc
    obtain ⟨e, he, hde⟩ := h'.forward d hd
    exact ⟨e, he, Nat.le_trans hcd hde⟩
  ahead c hc p hp := by
    rcases List.mem_append.mp hp with hp | hp
    · exact h.ahead c hc p hp
    · obtain ⟨d, hd, hcd⟩ := h.forward c hc
      exact Nat.le_trans hcd (h'.ahead d hd p hp)
  passed p hp := by
    rcases List.mem_append.mp hp with hp | hp
    · obtain ⟨d, hd, hpd⟩ := h.passed p hp
      obtain ⟨e, he, hde⟩ := h'.forward d hd
      exact ⟨e, he, Nat.le_trans hpd hde⟩
    · exact h'.passed p hp
  ordered := by
    rw [List.pairwise_append]
    refine ⟨h.ordered, h'.ordered, ?_⟩
    intro p hp q hq
    obtain ⟨d, hd, hpd⟩ := h.passed p hp
    exact Nat.le_trans hpd (h'.ahead d hd q hq)

end Advances

section

variable {fees : FeeSchedule} {b : Block} {coins : Coins} {cursor : Option Cursor} {tx : Tx}
  {txs : List Tx} {s t : σ}

theorem pairwise_of_misplaced? {previous : Option UInt32} (h : misplaced? previous txs = none) :
    (∀ p, previous = some p → ∀ tx ∈ txs, p < tx.index) ∧
      txs.Pairwise fun x y => x.index < y.index := by
  induction txs generalizing previous with
  | nil => exact ⟨by simp, .nil⟩
  | cons tx rest ih =>
    have hrest : misplaced? (some tx.index) rest = none := by
      cases previous with
      | none => exact h
      | some p =>
        simp only [misplaced?] at h
        split at h
        · cases h
        · exact h
    obtain ⟨habove, hpairwise⟩ := ih hrest
    refine ⟨?_, List.pairwise_cons.mpr ⟨habove _ rfl, hpairwise⟩⟩
    intro p hp tx' htx'
    have hp' : p < tx.index := by
      rw [hp] at h
      simp only [misplaced?] at h
      split at h
      · cases h
      · next hnot => exact UInt32.not_le.mp hnot
    rcases List.mem_cons.mp htx' with rfl | htx'
    · exact hp'
    · exact UInt32.lt_trans hp' (habove _ rfl tx' htx')

/-- The transactions of a block that the check lets pass stand in the order of their indices. -/
theorem pairwise_of_check {a : Applicant} (h : check a b = .ok ()) :
    b.txs.Pairwise fun x y => x.index < y.index := by
  unfold check at h
  by_cases hhalted : a.halted = true
  · rw [if_pos hhalted] at h
    cases h
  rw [if_neg hhalted] at h
  cases hplaced : misplaced? none b.txs with
  | none => exact (pairwise_of_misplaced? hplaced).2
  | some index =>
    rw [hplaced] at h
    cases hlast : a.last with
    | none =>
      rw [hlast] at h
      cases h
    | some last =>
      rw [hlast] at h
      by_cases hlt : b.height < last
      · simp only [hlt, if_true] at h
        cases h
      · simp only [hlt, if_false] at h
        cases h

variable [HoldsCursor σ]

/-- After a block is entered, the cursor stands in it, behind the transactions that were behind
it. -/
theorem cursor?_enter (hs : cursor? s = .ok cursor)
    (hnot : ∀ c, cursor = some c → ¬ b.height < c.height) {settled : List (BillId × Settlement)}
    (h : enter b coins cursor s = .ok settled t) :
    Advances s t [] ∧ ∃ j, cursor? t = .ok (some ⟨b.height, j⟩) ∧
      ∀ tx, isCovered cursor b tx = false → j ≤ tx.index := by
  unfold enter at h
  rw [atomically_eq_ok] at h
  obtain ⟨due, s₁, hdue, h⟩ := bind_eq_ok.mp h
  obtain ⟨_, s₂, hsettled, h⟩ := bind_eq_ok.mp h
  have hread := (Keeps.read (f := cursor? (σ := σ)) _).of_ok hdue
  have hsettle := (Keeps.mapM fun id _ => keeps_settleBill b coins id).of_ok hsettled
  have hkept : cursor? s₂ = .ok cursor := hsettle.trans (hread.trans hs)
  by_cases henters : entersBlock cursor b = true
  · rw [if_pos henters] at h
    obtain ⟨_, s₃, hset, hpure⟩ := bind_eq_ok.mp h
    obtain ⟨_, rfl⟩ := pure_eq_ok.mp hpure
    have ht := cursor?_of_stored hset
    refine ⟨.of_moved ht ?_, 0, ht, fun _ _ => UInt32.zero_le⟩
    intro c hc
    rw [hs] at hc
    cases hc
    exact Cursor.rank_le_of_height_lt (of_decide_eq_true henters)
  · rw [if_neg henters] at h
    obtain ⟨_, rfl⟩ := pure_eq_ok.mp h
    cases cursor with
    | none => exact absurd rfl henters
    | some c =>
      have hle : ¬ c.height < b.height := fun hlt => henters (decide_eq_true hlt)
      have heq : c.height = b.height :=
        UInt64.le_antisymm (UInt64.not_lt.mp (hnot c rfl)) (UInt64.not_lt.mp hle)
      refine ⟨.of_kept (hkept.trans hs.symm), c.nextTx, ?_, ?_⟩
      · rw [hkept, ← heq]
      · intro tx hcovered
        have hindex : ¬ tx.index < c.nextTx := by
          simpa [isCovered, Cursor.covers, heq] using hcovered
        exact UInt32.not_lt.mp hindex

theorem placesOf_cons (b : Block) (o : UInt32 × TxOutcome) (rest : List (UInt32 × TxOutcome)) :
    placesOf b (o :: rest) = placesOf b [o] ++ placesOf b rest := by
  unfold placesOf
  rw [← List.map_append, ← List.filter_append, List.singleton_append]

/-- Transactions are applied one behind another, from a cursor within their block. -/
theorem advances_txs {j : UInt32} (hs : cursor? s = .ok (some ⟨b.height, j⟩))
    (hplaced : txs.Pairwise fun x y => x.index < y.index)
    (hahead : ∀ tx ∈ txs, isCovered cursor b tx = false → j ≤ tx.index) :
    Advances s (left (txs.mapM (applyOrPass fees b cursor) s))
      (placesOf b (txOutcomes fees b cursor txs s)) := by
  induction txs generalizing s j with
  | nil => exact .refl s
  | cons tx rest ih =>
    obtain ⟨hlater, hplaced⟩ := List.pairwise_cons.mp hplaced
    rw [List.mapM_cons, txOutcomes]
    cases hcovered : isCovered cursor b tx with
    | true =>
      have hpass := applyOrPass_of_covered fees s hcovered
      rw [hpass, bind_ok hpass, left_bind_pure, placesOf_cons]
      exact ih hs hplaced fun tx' htx' => hahead tx' (List.mem_cons_of_mem tx htx')
    | false =>
      rw [applyOrPass_of_not_covered fees hcovered]
      cases happly : applyTx fees b tx s with
      | error fault t =>
        rw [bind_error happly, bind_error (bind_error happly _), applyTx_of_error happly]
        exact .refl s
      | ok outcome t =>
        have hfirst : (applyTx fees b tx >>= fun outcome => pure (tx.index, outcome)) s =
            .ok (tx.index, outcome) t := (bind_ok happly _).trans rfl
        rw [hfirst, bind_ok hfirst, left_bind_pure, placesOf_cons]
        have hmoved := cursor?_applyTx happly
        have hindex := hahead tx List.mem_cons_self hcovered
        have hstep : Advances s t [⟨b.height, tx.index⟩] := by
          refine .of_passed hs hmoved ?_
          exact Nat.add_le_add_left (UInt32.le_iff_toNat_le.mp hindex) _
        have hrest : Advances t _ _ := ih hmoved hplaced fun tx' htx' _ =>
          UInt32.le_iff_toNat_le.mpr (Cursor.toNat_indexAfter_le (hlater tx' htx'))
        exact (hstep.sublist (List.filter_sublist.map _)).trans hrest

theorem advances_body (hs : cursor? s = .ok cursor)
    (hnot : ∀ c, cursor = some c → ¬ b.height < c.height)
    (hplaced : b.txs.Pairwise fun x y => x.index < y.index) :
    Advances s (left (applyBody fees b coins cursor s))
      (placesOf b (bodyOutcomes fees b coins cursor s)) := by
  unfold applyBody bodyOutcomes
  cases henter : enter b coins cursor s with
  | error fault t =>
    have hsame : t = s := atomically_of_error henter
    rw [bind_error henter, hsame]
    exact .refl s
  | ok settled t =>
    obtain ⟨hentered, j, ht, hahead⟩ := cursor?_enter hs hnot henter
    rw [bind_ok henter, left_bind_pure]
    exact hentered.trans (advances_txs ht hplaced fun tx _ => hahead tx)

/-- What a block does to the cursor, applied, skipped or refused. -/
theorem advances_apply (c : Arrival) (a : Applicant) (s : σ) :
    Advances s (c.apply a s).store (placesOf c.block (c.outcomes a s)) := by
  unfold Arrival.apply Arrival.outcomes
  cases hcheck : check (c.applicant a) c.block with
  | error fault =>
    unfold Chain.apply
    rw [hcheck]
    exact .refl s
  | ok _ =>
    rw [store_of_check hcheck]
    dsimp only
    rcases applyChecked_cases c.fees c.block c.coins s with
      ⟨fault, hrun, hnone⟩ | ⟨hrun, hnone⟩ | ⟨cursor, hcursor, hnot, hrun, hbody⟩
    · rw [hrun, hnone]
      exact .refl s
    · rw [hrun, hnone]
      exact .refl s
    · rw [hrun, hbody]
      exact advances_body hcursor hnot (pairwise_of_check hcheck)

theorem advances_course (s₀ : σ) (arrivals : Nat → Arrival) (n : Nat) :
    Advances s₀ (course s₀ arrivals n).2 (places s₀ arrivals n) := by
  induction n with
  | zero => exact .refl s₀
  | succ n ih => exact ih.trans (advances_apply (arrivals n) _ _)

theorem exists_advances_course (s₀ : σ) (arrivals : Nat → Arrival) {m n : Nat} (h : m ≤ n) :
    ∃ ps, Advances (course s₀ arrivals m).2 (course s₀ arrivals n).2 ps := by
  induction n, h using Nat.le_induction with
  | base => exact ⟨[], .refl _⟩
  | succ n _ ih =>
    obtain ⟨ps, hps⟩ := ih
    exact ⟨_, hps.trans (advances_apply (arrivals n) _ _)⟩

end

theorem exists_tx_of_mem_places {s₀ : σ} {arrivals : Nat → Arrival} {n : Nat} {p : Cursor}
    (h : p ∈ places s₀ arrivals n) : ∃ i < n, ∃ tx ∈ (arrivals i).block.txs, p.nextTx = tx.index := by
  induction n with
  | zero => cases h
  | succ n ih =>
    rcases List.mem_append.mp h with h | h
    · obtain ⟨i, hi, htx⟩ := ih h
      exact ⟨i, Nat.lt_succ_of_lt hi, htx⟩
    · obtain ⟨o, ho, rfl⟩ := List.mem_map.mp h
      have ho := (List.mem_filter.mp ho).1
      refine ⟨n, n.lt_succ_self, ?_⟩
      cases hcheck : check ((arrivals n).applicant (course s₀ arrivals n).1) (arrivals n).block with
      | error fault =>
        unfold Arrival.outcomes at ho
        rw [hcheck] at ho
        cases ho
      | ok _ =>
        rw [outcomes_of_check hcheck] at ho
        rcases applyChecked_cases (arrivals n).fees (arrivals n).block (arrivals n).coins
          (course s₀ arrivals n).2 with ⟨_, _, hnone⟩ | ⟨_, hnone⟩ | ⟨cursor, _, _, _, hbody⟩
        · rw [hnone] at ho
          cases ho
        · rw [hnone] at ho
          cases ho
        · rw [hbody] at ho
          exact exists_tx_of_mem_bodyOutcomes ho

end

/-- Whatever a store holds and whichever blocks come to it, the cursor never moves back, and the
transactions that are applied stand one behind another. Only at the largest index can one be applied
again. -/
theorem positions_in_order (k : Backend) (s₀ : k.Store) (arrivals : Nat → Arrival) :
    PassesInOrder s₀ arrivals where
  forward m n hmn c hc := by
    obtain ⟨ps, hps⟩ := exists_advances_course s₀ arrivals hmn
    obtain ⟨d, hd, hle⟩ := hps.forward c hc
    exact ⟨d, hd, Cursor.compare_ne_gt.mpr hle⟩
  reported n report h := outcomes_of_ok h
  ordered n := (advances_course s₀ arrivals n).ordered.imp Cursor.lt_or_eq_of_next_le
  strict n hlast := by
    refine (advances_course s₀ arrivals n).ordered.imp_of_mem fun {p q} hp _ hpq => ?_
    rcases Cursor.lt_or_eq_of_next_le hpq with hlt | ⟨_, hindex⟩
    · exact hlt
    · obtain ⟨i, hi, tx, htx, hp⟩ := exists_tx_of_mem_places hp
      exact absurd (hp.symm.trans hindex) (hlast i hi tx htx)

/-- A token is created and ten units of it are sent at the largest index; then the block comes
again to a new applicant. -/
def redelivery (_ : Nat) : Arrival :=
  let sender : KeyId := ⟨.fill 20 1⟩
  let payload (op : Operation) : Bytes := (Payload.bytesOf op).1 :: (Payload.bytesOf op).2
  ⟨true, .flat 0, ⟨1, 10, [⟨0, payload (.registerName "ada"), sender, 0⟩,
    ⟨1, payload (.createToken ⟨"GOLD", "Gold", ⟨.fill 20 7⟩, 1000, 2⟩), sender, 0⟩,
    ⟨Cursor.lastIndex, payload (.transferToken ⟨1⟩ ⟨.fill 20 2⟩ 10 ""), sender, 0⟩]⟩, ∅⟩

/-- The block that comes again sends the ten units again. -/
theorem applied_again_at_last_index :
    places (∅ : Ledger) redelivery 2 =
        [⟨1, 0⟩, ⟨1, 1⟩, ⟨1, Cursor.lastIndex⟩, ⟨1, Cursor.lastIndex⟩] ∧
      ((course (∅ : Ledger) redelivery 1).2.tokenBalances.get? (⟨1⟩, ⟨.fill 20 2⟩),
        (course (∅ : Ledger) redelivery 2).2.tokenBalances.get? (⟨1⟩, ⟨.fill 20 2⟩)) =
        (some 10, some 20) := by
  decide +kernel

end Chain

end CivicLedger
