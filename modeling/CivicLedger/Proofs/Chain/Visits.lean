import CivicLedger.Proofs.Database.Backends
import CivicLedger.Proofs.Database.Chains

/-!
# The states that runs pass through

A block is committed in parts, first its settlements and then each of its transactions. Between two
parts the store is as much a state of the ledger as after the block. Whatever admitted effects,
settlements of due bills and moves of the cursor keep holds of all these states.
-/

namespace CivicLedger

open Program Chain

namespace Chain

/-- What runs of blocks lead to, and what every committed part of a block leads to from there. -/
inductive Visited {σ : Type} [LedgerEdits σ] (s₀ : σ) : σ → Prop where
  | reached {a : Applicant} {s : σ} (h : Reached s₀ a s) : Visited s₀ s
  | entered {b : Block} {coins : Coins} {cursor : Option Cursor}
    {settled : List (BillId × Settlement)} {s s' : σ} (h : Visited s₀ s)
    (henter : enter b coins cursor s = .ok settled s') : Visited s₀ s'
  | applied {fees : FeeSchedule} {b : Block} {tx : Tx} {outcome : TxOutcome} {s s' : σ}
    (h : Visited s₀ s) (happly : applyTx fees b tx s = .ok outcome s') : Visited s₀ s'

end Chain

/-- What a database passes through, a ledger that it holds passes through. -/
theorem Database.exists_mirrors_of_visited {db : Database} (h : Visited opened db) :
    ∃ l, Visited ∅ l ∧ Mirrors l db := by
  induction h with
  | reached h =>
    obtain ⟨l, hl, hm⟩ := exists_mirrors_of_reached h
    exact ⟨l, .reached hl, hm⟩
  | @entered b coins cursor _ _ _ _ henter ih =>
    obtain ⟨l, hl, hm⟩ := ih
    obtain ⟨l', henter', hm'⟩ := (agree_enter b coins cursor).exists_ledger hm henter
    exact ⟨l', .entered hl henter', hm'⟩
  | @applied fees b tx _ _ _ _ happly ih =>
    obtain ⟨l, hl, hm⟩ := ih
    obtain ⟨l', happly', hm'⟩ := (agree_applyTx fees b tx).exists_ledger hm happly
    exact ⟨l', .applied hl happly', hm'⟩

namespace Ledger

variable {l l' : Ledger}

theorem Sound.closed (h : l.Sound) (b : Block) (coins : Coins) {id : BillId} {bill : Bill}
    (hb : l.bills.get? id = some bill) : (l.closed b coins id).Sound where
  conserved := h.conserved.congr (tokenPart_closed l b coins id)
  numbered := h.numbered.congr (Prod.mk.inj (tokenPart_closed l b coins id)).1
  scheduled := h.scheduled.closed hb

structure Stable (I : Ledger → Prop) : Prop where
  enact : ∀ {l : Ledger} {point : ChainPoint} {sender : KeyId} {op : Operation} {effect : Effect},
    l.Sound → I l → l.Admitted point sender op effect → l.HasRoom effect → I (l.enact effect)
  closed : ∀ {l : Ledger} (b : Block) (coins : Coins) {id : BillId} {bill : Bill}, l.Sound → I l →
    l.bills.get? id = some bill → l.settlements.get? id = none → bill.closes ≤ b.time →
    I (l.closed b coins id)
  cursor : ∀ {l : Ledger} (c : Cursor), I l → I { l with cursor := some c }

/-- What an empty ledger has and each change keeps. -/
structure Invariant (I : Ledger → Prop) : Prop extends Stable I where
  start : I ∅

namespace Stable

variable {I : Ledger → Prop}

theorem entered (hI : Stable I) (hs : l.Sound) (h : I l) (b : Block) (coins : Coins)
    (cursor : Option Cursor) : (l.entered b coins cursor).Sound ∧ I (l.entered b coins cursor) := by
  refine ⟨hs.entered b coins cursor, ?_⟩
  -- `closed` asks for a sound ledger, so that both are carried through the settlements.
  have hsettled : (l.settledAll b coins).Sound ∧ I (l.settledAll b coins) :=
    hs.scheduled.settledAll_induction (P := fun m => m.Sound ∧ I m) b coins ⟨hs, h⟩
      fun m id bill hm hb hnone hcloses =>
        ⟨hm.1.closed b coins hb, hI.closed b coins hm.1 hm.2 hb hnone hcloses⟩
  unfold Ledger.entered
  split
  · exact hI.cursor _ hsettled.2
  · exact hsettled.2

theorem processed (hI : Stable I) (hs : l.Sound) (h : I l) {b : Block} {tx : Tx}
    {outcome : TxOutcome} (hp : l.Processed b tx outcome l') : l'.Sound ∧ I l' := by
  refine ⟨hp.sound hs, ?_⟩
  cases hp with
  | unchanged _ => exact h
  | enacted _ hassess room => exact hI.enact hs h (admitted_of_assess hassess) room

theorem applied (hI : Stable I) (hs : l.Sound) (h : I l) {fees : FeeSchedule} {b : Block}
    {tx : Tx} {outcome : TxOutcome} (happly : applyTx fees b tx l = .ok outcome l') :
    l'.Sound ∧ I l' := by
  obtain ⟨m, hm, rfl⟩ := hs.processed_of_applyTx happly
  obtain ⟨hsound, hkept⟩ := hI.processed hs h hm
  exact ⟨hsound.withCursor _, hI.cursor _ hkept⟩

theorem taken (hI : Stable I) (hs : l.Sound) (h : I l) {fees : FeeSchedule} {b : Block}
    {txs : List Tx} (ht : Taken fees b txs l l') : l'.Sound ∧ I l' := by
  induction ht with
  | nil => exact ⟨hs, h⟩
  | cons happly _ ih =>
    obtain ⟨hsound, hkept⟩ := hI.applied hs h happly
    exact ih hsound hkept

theorem ends_applyChecked (hI : Stable I) (fees : FeeSchedule) (b : Block) (coins : Coins) :
    Ends (fun l => l.Sound ∧ I l) (fun _ l => l.Sound ∧ I l)
      (applyChecked fees b coins : Step Ledger _) := by
  refine Chain.ends_applyChecked ?_ ?_ ?_ fees b coins
  · exact .of_ok fun l h => ⟨l.cursor, l, rfl, h⟩
  · intro b coins cursor
    refine .of_ok fun l h => ?_
    obtain ⟨settled, _, henter⟩ := h.1.scheduled.enter_apply b coins cursor
    exact ⟨settled, _, henter, hI.entered h.1 h.2 b coins cursor⟩
  · intro fees b tx l h
    cases happly : applyTx fees b tx l with
    | ok outcome l' => exact hI.applied h.1 h.2 happly
    | error fault l' =>
      rw [applyTx_of_error happly]
      exact h

/-- A block keeps it, whether it is applied, skipped or refused. -/
theorem apply (hI : Stable I) (hs : l.Sound) (h : I l) (fees : FeeSchedule) (a : Applicant)
    (b : Block) (coins : Coins) :
    (Chain.apply fees a b coins l).store.Sound ∧ I (Chain.apply fees a b coins l).store := by
  rcases apply_ends (hI.ends_applyChecked fees b coins) ⟨hs, h⟩ with
    ⟨fault, _, happly⟩ | ⟨_, ⟨report, l', happly, hl'⟩ | ⟨fault, l', happly, hl'⟩⟩
  · rw [happly]
    exact ⟨hs, h⟩
  · rw [happly]
    exact hl'
  · rw [happly]
    exact hl'

end Stable

namespace Invariant

variable {I : Ledger → Prop}

theorem reached (hI : Invariant I) {a : Applicant} (h : Reached ∅ a l) : l.Sound ∧ I l := by
  induction h with
  | start => exact ⟨sound_empty, hI.start⟩
  | anew _ ih => exact ih
  | block fees b coins _ ih => exact hI.apply ih.1 ih.2 fees _ b coins

theorem visited (hI : Invariant I) (h : Visited ∅ l) : l.Sound ∧ I l := by
  induction h with
  | reached h => exact hI.reached h
  | @entered b coins cursor _ l _ _ henter ih =>
    obtain ⟨_, _, henter'⟩ := ih.1.scheduled.enter_apply b coins cursor
    rw [henter] at henter'
    cases henter'
    exact hI.entered ih.1 ih.2 b coins cursor
  | applied _ happly ih => exact hI.applied ih.1 ih.2 happly

end Invariant

theorem invariant_true : Invariant fun _ => True := by
  refine { start := trivial, enact := ?_, closed := ?_, cursor := ?_ } <;> intros <;> trivial

theorem sound_of_visited (h : Visited ∅ l) : l.Sound := (invariant_true.visited h).1

end Ledger

end CivicLedger
