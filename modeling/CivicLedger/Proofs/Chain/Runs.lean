import CivicLedger.Chain.Apply
import CivicLedger.Proofs.State.Program

/-!
# Runs of blocks

The states that blocks can lead to, whatever they hold and whoever weighs their bills: blocks are
applied, skipped or refused, and the applicant may be made anew at any time. What applying a block
comes to follows from what entering it and applying one of its transactions come to.
-/

namespace CivicLedger.Chain

open Program

variable {σ : Type} [LedgerEdits σ]

inductive Reached (s₀ : σ) : Applicant → σ → Prop where
  | start : Reached s₀ fresh s₀
  | anew {a : Applicant} {s : σ} : Reached s₀ a s → Reached s₀ fresh s
  | block {a : Applicant} {s : σ} (fees : FeeSchedule) (b : Block) (coins : Coins) :
    Reached s₀ a s →
      Reached s₀ (apply fees a b coins s).applicant (apply fees a b coins s).store

def process (fees : FeeSchedule) (b : Block) (tx : Tx) : Step σ TxOutcome :=
  match Payload.decode tx.payload with
  | .error fault => pure (.malformed fault)
  | .ok (.unrecognized opcode _) => pure (.unrecognized opcode)
  | .ok op => applyOperation fees b tx op

theorem applyTx_eq (fees : FeeSchedule) (b : Block) (tx : Tx) :
    (applyTx fees b tx : Step σ TxOutcome) = Step.atomically (process fees b tx >>= fun outcome =>
      Step.stored (LedgerEdits.setCursor ⟨b.height, indexAfter tx.index⟩) >>= fun _ =>
        pure outcome) := by
  unfold applyTx process
  cases Payload.decode tx.payload with
  | error fault => rfl
  | ok op => cases op <;> rfl

/-- An operation either leaves the store as it is, or the rules admit an effect and performing it
comes to what the operation comes to. -/
theorem applyOperation_cases (fees : FeeSchedule) (b : Block) (tx : Tx) (op : Operation) (s : σ) :
    (∃ outcome, (∀ kind, outcome ≠ .applied kind) ∧
      applyOperation fees b tx op s = .ok outcome s) ∨
    (∃ fault, assess s b.point tx.sender op = .error (.store fault)) ∨
    ∃ effect, assess s b.point tx.sender op = .ok effect ∧
      applyOperation fees b tx op s =
        (perform effect >>= fun _ => pure (TxOutcome.applied effect.kind)) s := by
  unfold applyOperation
  by_cases hfee : tx.fee < op.minFee fees
  · simp only [hfee, if_true]
    exact .inl ⟨.refused _, nofun, rfl⟩
  · simp only [hfee, if_false]
    rw [bind_ok (get_apply s)]
    cases hassess : assess s b.point tx.sender op with
    | error e =>
      cases e with
      | refused r => exact .inl ⟨.refused r, nofun, rfl⟩
      | store fault => exact .inr (.inl ⟨fault, rfl⟩)
    | ok effect => exact .inr (.inr ⟨effect, rfl, rfl⟩)

theorem process_cases (fees : FeeSchedule) (b : Block) (tx : Tx) (s : σ) :
    (∃ outcome, (∀ kind, outcome ≠ .applied kind) ∧ process fees b tx s = .ok outcome s) ∨
    (∃ op fault, assess s b.point tx.sender op = .error (.store fault)) ∨
    ∃ op effect, Payload.decode tx.payload = .ok op ∧
      assess s b.point tx.sender op = .ok effect ∧
      process fees b tx s =
        (perform effect >>= fun _ => pure (TxOutcome.applied effect.kind)) s := by
  unfold process
  cases Payload.decode tx.payload with
  | error fault => exact .inl ⟨.malformed fault, nofun, rfl⟩
  | ok op =>
    have hop := applyOperation_cases fees b tx op s
    cases op with
    | unrecognized opcode body => exact .inl ⟨.unrecognized opcode, nofun, rfl⟩
    | _ =>
      rcases hop with h | ⟨fault, h⟩ | ⟨effect, h⟩
      · exact .inl h
      · exact .inr (.inl ⟨_, fault, h⟩)
      · exact .inr (.inr ⟨_, effect, rfl, h⟩)

/-- A block that has been checked keeps an invariant if entering it and applying each of its
transactions do. -/
theorem ends_applyChecked {I : σ → Prop} {E : ChainFault → σ → Prop}
    (hread : Ends I E (Step.read (LedgerReads.cursor? : σ → _)))
    (henter : ∀ b coins cursor, Ends I E (enter b coins cursor : Step σ _))
    (htx : ∀ fees b tx, Ends I E (applyTx fees b tx : Step σ _))
    (fees : FeeSchedule) (b : Block) (coins : Coins) :
    Ends I E (applyChecked fees b coins : Step σ _) := by
  have hpass (cursor : Option Cursor) (tx : Tx) :
      Ends I E (applyOrPass fees b cursor tx : Step σ _) := by
    unfold applyOrPass
    split
    · exact .pure _
    · exact (htx fees b tx).bind fun _ => .pure _
  have hbody (cursor : Option Cursor) : Ends I E (applyBody fees b coins cursor : Step σ _) :=
    (henter b coins cursor).bind fun _ =>
      (Ends.mapM fun tx _ => hpass cursor tx).bind fun _ => .pure _
  refine hread.bind fun cursor => ?_
  split
  · split
    · exact .pure _
    · exact hbody _
  · exact hbody _

/-- What holds of the store and of whether the applicant has given up holds after a block. -/
theorem apply_ends {I : σ → Prop} {E : ChainFault → σ → Prop} {a : Applicant} {s : σ}
    {fees : FeeSchedule} {b : Block} {coins : Coins}
    (h : Ends I E (applyChecked fees b coins : Step σ _)) (hs : I s) :
    (∃ fault, check a b = .error fault ∧ apply fees a b coins s = ⟨.error fault, a, s⟩) ∨
      check a b = .ok () ∧
        ((∃ report s', apply fees a b coins s = ⟨.ok report, ⟨some b.height, false⟩, s'⟩ ∧ I s') ∨
          ∃ fault s', apply fees a b coins s =
            ⟨.error fault, after b (.error fault), s'⟩ ∧ E fault s') := by
  have hchecked := h s hs
  unfold apply
  cases hcheck : check a b with
  | error fault => exact .inl ⟨fault, rfl, rfl⟩
  | ok u =>
    refine .inr ⟨rfl, ?_⟩
    cases happly : applyChecked fees b coins s with
    | ok report s' =>
      rw [happly] at hchecked
      exact .inl ⟨report, s', rfl, hchecked⟩
    | error fault s' =>
      rw [happly] at hchecked
      exact .inr ⟨fault, s', rfl, hchecked⟩

theorem store_of_check {a : Applicant} {fees : FeeSchedule} {b : Block} {coins : Coins} {s : σ}
    (h : check a b = .ok ()) :
    (apply fees a b coins s).store = left (applyChecked fees b coins s) := by
  unfold apply
  rw [h]
  dsimp only
  cases applyChecked fees b coins s <;> rfl

/-- A check refuses an applicant that has given up, and blocks out of order. -/
theorem check_eq_error {a : Applicant} {b : Block} {fault : ChainFault}
    (h : check a b = .error fault) :
    (a.halted = true ∧ fault = .halted) ∨
      (∃ last, a.last = some last ∧ b.height < last ∧ fault = .blockOrder b.height last) ∨
        ∃ index, misplaced? none b.txs = some index ∧ fault = .txOrder b.height index := by
  unfold check at h
  by_cases hhalted : a.halted = true
  · rw [if_pos hhalted] at h
    cases h
    exact .inl ⟨hhalted, rfl⟩
  · rw [if_neg hhalted] at h
    right
    cases hlast : a.last with
    | none =>
      rw [hlast] at h
      cases hm : misplaced? none b.txs with
      | none => rw [hm] at h; cases h
      | some index => rw [hm] at h; cases h; exact .inr ⟨index, rfl, rfl⟩
    | some last =>
      rw [hlast] at h
      by_cases hlt : b.height < last
      · simp only [hlt, if_true] at h
        cases h
        exact .inl ⟨last, rfl, hlt, rfl⟩
      · simp only [hlt, if_false] at h
        cases hm : misplaced? none b.txs with
        | none => rw [hm] at h; cases h
        | some index => rw [hm] at h; cases h; exact .inr ⟨index, rfl, rfl⟩

inductive Taken (fees : FeeSchedule) (b : Block) : List Tx → σ → σ → Prop where
  | nil (s : σ) : Taken fees b [] s s
  | cons {tx : Tx} {rest : List Tx} {outcome : TxOutcome} {s s' s'' : σ}
    (happly : applyTx fees b tx s = .ok outcome s') (hrest : Taken fees b rest s' s'') :
    Taken fees b (tx :: rest) s s''

section

variable {fees : FeeSchedule} {b : Block} {cursor : Option Cursor} {txs xs ys : List Tx}
  {s s' : σ}

theorem Taken.unique {t : σ} (h : Taken fees b txs s s') (h' : Taken fees b txs s t) : s' = t := by
  induction h with
  | nil => cases h'; rfl
  | cons happly _ ih =>
    cases h' with
    | cons happly' hrest' =>
      rw [happly] at happly'
      cases happly'
      exact ih hrest'

theorem Taken.split (h : Taken fees b (xs ++ ys) s s') :
    ∃ mid, Taken fees b xs s mid ∧ Taken fees b ys mid s' := by
  induction xs generalizing s with
  | nil => exact ⟨s, .nil s, h⟩
  | cons x xs ih =>
    cases h with
    | cons happly hrest =>
      obtain ⟨mid, hxs, hys⟩ := ih hrest
      exact ⟨mid, .cons happly hxs, hys⟩

theorem applyOrPass_of_covered (fees : FeeSchedule) {tx : Tx} (s : σ)
    (h : isCovered cursor b tx = true) :
    applyOrPass fees b cursor tx s = .ok (tx.index, .alreadyApplied) s := by
  unfold applyOrPass
  rw [if_pos h]
  rfl

theorem applyOrPass_of_not_covered (fees : FeeSchedule) {tx : Tx}
    (h : isCovered cursor b tx = false) :
    (applyOrPass fees b cursor tx : Step σ _) =
      (applyTx fees b tx >>= fun outcome => pure (tx.index, outcome)) := by
  unfold applyOrPass
  rw [if_neg (by rw [h]; exact Bool.false_ne_true)]

/-- Transactions that are not behind the cursor are applied. -/
theorem exists_mapM_iff (h : ∀ tx ∈ txs, isCovered cursor b tx = false) :
    (∃ outcomes, txs.mapM (applyOrPass fees b cursor) s = .ok outcomes s') ↔
      Taken fees b txs s s' := by
  induction txs generalizing s with
  | nil =>
    constructor
    · rintro ⟨outcomes, hrun⟩
      cases hrun
      exact .nil _
    · intro ht
      cases ht
      exact ⟨[], rfl⟩
  | cons tx rest ih =>
    have hrest := fun {t : σ} => ih (s := t) fun tx htx => h tx (List.mem_cons_of_mem _ htx)
    have hhead := applyOrPass_of_not_covered (σ := σ) fees (h tx List.mem_cons_self)
    constructor
    · rintro ⟨outcomes, hrun⟩
      obtain ⟨first, others, t, hfirst, hothers, _⟩ := mapM_cons_eq_ok.mp hrun
      rw [hhead] at hfirst
      obtain ⟨outcome, t', happly, hpure⟩ := bind_eq_ok.mp hfirst
      obtain ⟨_, rfl⟩ := pure_eq_ok.mp hpure
      exact .cons happly (hrest.mp ⟨others, hothers⟩)
    · intro ht
      cases ht with
      | @cons _ _ outcome _ t _ happly ht =>
        obtain ⟨others, hothers⟩ := hrest.mpr ht
        have hfirst : applyOrPass fees b cursor tx s = .ok (tx.index, outcome) t := by
          rw [hhead]
          exact (bind_ok happly _).trans rfl
        exact ⟨(tx.index, outcome) :: others, mapM_cons_ok hfirst hothers⟩

/-- Transactions behind the cursor are passed. -/
theorem mapM_of_covered (fees : FeeSchedule) (s : σ)
    (h : ∀ tx ∈ txs, isCovered cursor b tx = true) :
    ∃ outcomes, txs.mapM (applyOrPass fees b cursor) s = .ok outcomes s := by
  induction txs with
  | nil => exact ⟨[], rfl⟩
  | cons tx rest ih =>
    obtain ⟨others, hothers⟩ := ih fun tx htx => h tx (List.mem_cons_of_mem _ htx)
    have hhead := applyOrPass_of_covered fees s (h tx List.mem_cons_self)
    exact ⟨_, mapM_cons_ok hhead hothers⟩

theorem applyTx_of_error {tx : Tx} {fault : ChainFault} (h : applyTx fees b tx s = .error fault s') :
    s' = s := by
  rw [applyTx_eq] at h
  exact atomically_of_error h

/-- However far the transactions of a block come, some of them have been applied. -/
theorem exists_taken_mapM (fees : FeeSchedule) (b : Block) (cursor : Option Cursor) (txs : List Tx)
    (s : σ) : ∃ taken, Taken fees b taken s (left (txs.mapM (applyOrPass fees b cursor) s)) := by
  induction txs generalizing s with
  | nil => exact ⟨[], .nil s⟩
  | cons tx rest ih =>
    rw [List.mapM_cons]
    by_cases hcovered : isCovered cursor b tx = true
    · rw [bind_ok (applyOrPass_of_covered fees s hcovered), left_bind_pure]
      exact ih s
    rw [applyOrPass_of_not_covered fees (Bool.eq_false_iff.mpr hcovered)]
    cases happly : applyTx fees b tx s with
    | ok outcome t =>
      have hfirst : (applyTx fees b tx >>= fun outcome => pure (tx.index, outcome)) s =
          .ok (tx.index, outcome) t := (bind_ok happly _).trans rfl
      obtain ⟨taken, htaken⟩ := ih t
      rw [bind_ok hfirst, left_bind_pure]
      exact ⟨tx :: taken, .cons happly htaken⟩
    | error fault t =>
      rw [bind_error (bind_error happly _), applyTx_of_error happly]
      exact ⟨[], .nil s⟩

theorem not_lt_of_enters (h : entersBlock cursor b = true) :
    ∀ c, cursor = some c → ¬ b.height < c.height := by
  rintro c rfl hlt
  exact UInt64.lt_asymm hlt (of_decide_eq_true h)

theorem not_covered_of_enters (h : entersBlock cursor b = true) (tx : Tx) :
    isCovered cursor b tx = false := by
  cases cursor with
  | none => rfl
  | some c =>
    have hlt : c.height < b.height := of_decide_eq_true h
    have hnot : ¬ b.height < c.height := not_lt_of_enters h c rfl
    have hne : b.height ≠ c.height := UInt64.ne_of_lt hlt |>.symm
    simp [isCovered, Cursor.covers, hnot, hne]

end

end CivicLedger.Chain
