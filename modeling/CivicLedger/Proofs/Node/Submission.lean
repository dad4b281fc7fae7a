import CivicLedger.Node.Submission
import CivicLedger.Proofs.Chain.Guarantees
import CivicLedger.Proofs.Chain.Visits
import CivicLedger.Proofs.Node.Restart
import CivicLedger.Proofs.Operation.Payload

/-!
# Submissions and blocks

An operation is tried against the ledger before it is sent, and again when a block brings its
payload. In between the block settles bills, which changes no verdict: those that it settles take no
more votes at its time. The next block therefore does what was found at the submission.
-/

namespace CivicLedger

open Chain Program

namespace Ledger

variable {l : Ledger} {b : Block} {coins : Coins} {point : ChainPoint}

theorem assess_setCursor (l : Ledger) (c : Option Cursor) (point : ChainPoint) (sender : KeyId)
    (op : Operation) :
    assess { l with cursor := c } point sender op = assess l point sender op := by
  unfold assess
  cases op.checkForm with
  | error fault => rfl
  | ok _ => cases op <;> rfl

/-- A vote on another bill finds what it found before a bill is settled. -/
theorem admitBallot_closed_ne {id other : BillId} {bill : Bill}
    (hb : l.bills.get? id = some bill) (hne : other ≠ id) (sender : KeyId) (choice : UInt8) :
    Rules.admitBallot (l.closed b coins id) point sender other choice =
      Rules.admitBallot l point sender other choice := by
  have hbills := bills_closed l b coins id
  have hsettlement := settlements_closed_ne l b coins hne
  have hballot : (l.closed b coins id).ballots.get? (other, sender) =
      l.ballots.get? (other, sender) := by
    rw [get?_ballots_closed hb]
    simp [hne]
  simp only [Rules.admitBallot, LedgerReads.bill?, LedgerReads.settlement?, LedgerReads.ballot?]
  rw [hbills, hsettlement, hballot]

/-- A vote on a bill whose window has closed is refused, whether the bill is settled or not. -/
theorem admitBallot_of_closed {id : BillId} {bill : Bill} (hb : l.bills.get? id = some bill)
    (hcloses : bill.closes ≤ point.time) (sender : KeyId) (choice : UInt8) :
    Rules.admitBallot l point sender id choice = Admission.refuse (.billFinished id) := by
  have hclosed : bill.isClosedAt point.time = true := decide_eq_true hcloses
  simp only [Rules.admitBallot, LedgerReads.bill?, Admission.read, hb, Admission.ok_bind, hclosed,
    if_true, Admission.refuse_bind]

/-- To settle a bill whose window has closed changes no verdict. -/
theorem assess_closed {id : BillId} {bill : Bill} (hb : l.bills.get? id = some bill)
    (hcloses : bill.closes ≤ point.time) (sender : KeyId) (op : Operation) :
    assess (l.closed b coins id) point sender op = assess l point sender op := by
  have hballot (other : BillId) (choice : UInt8) :
      Rules.admitBallot (l.closed b coins id) point sender other choice =
        Rules.admitBallot l point sender other choice := by
    by_cases hne : other = id
    · subst hne
      have hb' : (l.closed b coins other).bills.get? other = some bill := by rwa [bills_closed]
      rw [admitBallot_of_closed hb hcloses, admitBallot_of_closed hb' hcloses]
    · exact admitBallot_closed_ne hb hne sender choice
  unfold assess
  cases op.checkForm with
  | error fault => rfl
  | ok _ =>
    cases op with
    | voteBill other choice => exact hballot other choice
    | unrecognized opcode body => rfl
    | _ => rw [closed_eq hb]; rfl

/-- Entering a block changes no verdict at its time. -/
theorem Scheduled.assess_entered (h : l.Scheduled) (b : Block) (coins : Coins)
    (cursor : Option Cursor) (hpoint : point.time = b.time) (sender : KeyId) (op : Operation) :
    assess (l.entered b coins cursor) point sender op = assess l point sender op := by
  have hdue : ∀ id ∈ l.billsDue b.time, ∃ bill, l.bills.get? id = some bill ∧
      bill.closes ≤ point.time := by
    intro id hid
    obtain ⟨closes, hle, hin⟩ := mem_billsDue.mp hid
    obtain ⟨bill, hb, rfl, _⟩ := h.due closes id hin
    exact ⟨bill, hb, hpoint ▸ hle⟩
  have hfold (ids : List BillId) (m : Ledger)
      (hids : ∀ id ∈ ids, ∃ bill, m.bills.get? id = some bill ∧ bill.closes ≤ point.time) :
      assess (ids.foldl (·.closed b coins ·) m) point sender op = assess m point sender op := by
    induction ids generalizing m with
    | nil => rfl
    | cons id rest ih =>
      obtain ⟨bill, hb, hcloses⟩ := hids id List.mem_cons_self
      have hrest := ih (m.closed b coins id) (by
        intro other hother
        rw [bills_closed]
        exact hids other (List.mem_cons_of_mem id hother))
      exact hrest.trans (assess_closed hb hcloses sender op)
  unfold Ledger.entered
  split
  · rw [assess_setCursor]
    exact hfold _ l hdue
  · exact hfold _ l hdue

end Ledger

namespace Chain

section

variable {σ : Type} [LedgerEdits σ] {fees : FeeSchedule} {b : Block} {coins : Coins} {tx : Tx}
  {cursor : Option Cursor} {settled : List (BillId × Settlement)} {outcome : TxOutcome}
  {s s₁ s₂ s₃ : σ}

/-- The stores that come of a new one: balances of any block are recorded, blocks are applied by
whoever weighs their bills, or are left after any of their parts. -/
inductive Kept (s₀ : σ) : σ → Prop where
  | start : Kept s₀ s₀
  | recorded {u : Update} {s s' : σ} (h : Kept s₀ s)
    (hrecord : Node.recordEdits u s = .ok () s') : Kept s₀ s'
  | block {s : σ} (fees : FeeSchedule) (a : Applicant) (b : Block) (coins : Coins) (h : Kept s₀ s) :
    Kept s₀ (apply fees a b coins s).store
  | entered {b : Block} {coins : Coins} {cursor : Option Cursor}
    {settled : List (BillId × Settlement)} {s s' : σ} (h : Kept s₀ s)
    (henter : enter b coins cursor s = .ok settled s') : Kept s₀ s'
  | applied {fees : FeeSchedule} {b : Block} {tx : Tx} {outcome : TxOutcome} {s s' : σ}
    (h : Kept s₀ s) (happly : applyTx fees b tx s = .ok outcome s') : Kept s₀ s'

theorem applyTx_of_process (hprocess : process fees b tx s = .ok outcome s₁)
    (hmove : LedgerEdits.setCursor ⟨b.height, indexAfter tx.index⟩ s₁ = .ok () s₂) :
    applyTx fees b tx s = .ok outcome s₂ := by
  rw [applyTx_eq, atomically_eq_ok]
  exact (bind_ok hprocess _).trans ((bind_ok (stored_of_ok hmove) _).trans rfl)

/-- A block above the cursor is entered and its only transaction is applied. -/
theorem apply_alone (htxs : b.txs = [tx]) (hcursor : LedgerReads.cursor? s = .ok cursor)
    (henters : entersBlock cursor b = true) (henter : enter b coins cursor s = .ok settled s₁)
    (happly : applyTx fees b tx s₁ = .ok outcome s₂) :
    apply fees fresh b coins s =
      ⟨.ok ⟨b.height, [(tx.index, outcome)], settled, false⟩, ⟨some b.height, false⟩, s₂⟩ := by
  have hcheck : check fresh b = .ok () := by
    unfold check
    rw [htxs]
    rfl
  have hpass : applyOrPass fees b cursor tx s₁ = .ok (tx.index, outcome) s₂ := by
    rw [applyOrPass_of_not_covered fees (not_covered_of_enters henters tx)]
    exact (bind_ok happly _).trans rfl
  have htx : b.txs.mapM (applyOrPass fees b cursor) s₁ = .ok [(tx.index, outcome)] s₂ := by
    rw [htxs, List.mapM_cons]
    exact (bind_ok hpass _).trans rfl
  have hbody : applyBody fees b coins cursor s =
      .ok ⟨b.height, [(tx.index, outcome)], settled, false⟩ s₂ :=
    (bind_ok henter _).trans ((bind_ok htx _).trans rfl)
  have hchecked : applyChecked fees b coins s =
      .ok ⟨b.height, [(tx.index, outcome)], settled, false⟩ s₂ := by
    refine (bind_ok (read_of_ok hcursor) _).trans ?_
    cases cursor with
    | none => exact hbody
    | some c =>
      have hnot : ¬ b.height < c.height := not_lt_of_enters henters c rfl
      simp only [hnot, if_false]
      exact hbody
  unfold apply
  rw [hcheck, hchecked]
  rfl

theorem process_eq {op : Operation} {kind : OpKind} (hkind : op.kind? = some kind)
    (hdecode : Payload.decode tx.payload = .ok op) :
    process fees b tx s = applyOperation fees b tx op s := by
  unfold process
  rw [hdecode]
  cases op with
  | unrecognized opcode body => cases hkind
  | _ => rfl

theorem applyOperation_of_assess {op : Operation} (hfee : op.minFee fees ≤ tx.fee) :
    applyOperation fees b tx op s = match assess s b.point tx.sender op with
      | .error (.refused r) => .ok (.refused r) s
      | .error (.store fault) => .error (.storage fault) s
      | .ok effect => (perform effect >>= fun _ => pure (TxOutcome.applied effect.kind)) s := by
  unfold applyOperation
  simp only [UInt64.not_lt.mpr hfee, if_false]
  rw [bind_ok (get_apply s)]
  cases assess s b.point tx.sender op with
  | ok effect => rfl
  | error e => cases e <;> rfl

end

/-- What blocks keep, and the balances that are recorded for them, holds of every such ledger. -/
theorem Kept.invariant {I : Ledger → Prop} (hI : Ledger.Invariant I)
    (hcoins : ∀ {l : Ledger} (coins : Coins) (point : Option ChainPoint), I l →
      I (l.withCoins coins point)) {l : Ledger} (h : Kept ∅ l) : l.Sound ∧ I l := by
  induction h with
  | start => exact ⟨Ledger.sound_empty, hI.start⟩
  | @recorded u l _ _ hrecord ih =>
    rw [Ledger.recordEdits_apply] at hrecord
    cases hrecord
    exact ⟨ih.1.withCoins _ _, hcoins _ _ ih.2⟩
  | block fees a b coins _ ih => exact hI.apply ih.1 ih.2 fees a b coins
  | @entered b coins cursor _ _ _ _ henter ih =>
    obtain ⟨_, _, henter'⟩ := ih.1.scheduled.enter_apply b coins cursor
    rw [henter] at henter'
    cases henter'
    exact hI.entered ih.1 ih.2 b coins cursor
  | applied _ happly ih => exact hI.applied ih.1 ih.2 happly

theorem Kept.sound {l : Ledger} (h : Kept ∅ l) : l.Sound :=
  (h.invariant Ledger.invariant_true fun _ _ h => h).1

theorem exists_mirrors_of_kept {db : Database} (h : Kept Database.opened db) :
    ∃ l, Kept ∅ l ∧ Database.Mirrors l db := by
  induction h with
  | start => exact ⟨∅, .start, Database.mirrors_opened⟩
  | @recorded u _ _ _ hrecord ih =>
    obtain ⟨l, hl, hm⟩ := ih
    obtain ⟨l', hrecord', hm'⟩ := (Node.agree_recordEdits u).exists_ledger hm hrecord
    exact ⟨l', .recorded hl hrecord', hm'⟩
  | block fees a b coins _ ih =>
    obtain ⟨l, hl, hm⟩ := ih
    exact ⟨_, .block fees a b coins hl, (hm.apply fees a b coins).2.2⟩
  | @entered b coins cursor _ _ _ _ henter ih =>
    obtain ⟨l, hl, hm⟩ := ih
    obtain ⟨l', henter', hm'⟩ := (Database.agree_enter b coins cursor).exists_ledger hm henter
    exact ⟨l', .entered hl henter', hm'⟩
  | @applied fees b tx _ _ _ _ happly ih =>
    obtain ⟨l, hl, hm⟩ := ih
    obtain ⟨l', happly', hm'⟩ := (Database.agree_applyTx fees b tx).exists_ledger hm happly
    exact ⟨l', .applied hl happly', hm'⟩

/-- A new applicant is given the block, whose only transaction has index 0. The block is entered,
`change` makes `changed` of the ledger and the cursor moves behind the transaction; `outcome` is
reported. -/
def TakesAlone (k : Backend) (fees : FeeSchedule) (b : Block) (coins : Coins) (s : k.Store)
    (outcome : TxOutcome) (change : Step k.Store Unit) (changed : Ledger → Ledger) : Prop :=
  ∃ l cursor settled s₁ s₂ s₃, k.Holds l s ∧ LedgerReads.cursor? s = .ok cursor ∧
    enter b coins cursor s = .ok settled s₁ ∧ k.Holds (l.entered b coins cursor) s₁ ∧
    change s₁ = .ok () s₂ ∧ k.Holds (changed (l.entered b coins cursor)) s₂ ∧
    LedgerEdits.setCursor ⟨b.height, 1⟩ s₂ = .ok () s₃ ∧
    k.Holds { changed (l.entered b coins cursor) with cursor := some ⟨b.height, 1⟩ } s₃ ∧
    apply fees fresh b coins s =
      ⟨.ok ⟨b.height, [(0, outcome)], settled, false⟩, ⟨some b.height, false⟩, s₃⟩

/-- The store that a block enters, and its ledger: rules find in it what they found before, and what
they admit is performed. -/
structure Steady (k : Backend) (b : Block) (s s₁ : k.Store) (l₁ : Ledger) : Prop where
  holds : k.Holds l₁ s₁
  verdict : ∀ sender op, assess s₁ b.point sender op = assess s b.point sender op
  performs : ∀ sender op effect, assess s₁ b.point sender op = .ok effect →
    ∃ s₂, perform effect s₁ = .ok () s₂ ∧ k.Holds (l₁.enact effect) s₂

theorem steady_ledger {l : Ledger} (h : l.Sound) (hfew : HasFewTokens l) (b : Block)
    (coins : Coins) (cursor : Option Cursor) :
    Steady .memory b l (l.entered b coins cursor) (l.entered b coins cursor) := by
  have hentered := h.entered b coins cursor
  have htokens : (l.entered b coins cursor).tokens = l.tokens :=
    Ledger.keeps_entered b coins Ledger.tokens
      (fun m id => (Prod.mk.inj (Ledger.tokenPart_closed m b coins id)).1) (fun _ _ => rfl) l cursor
  have hnotFull : ¬ (l.entered b coins cursor).IsFull := by
    unfold Ledger.IsFull
    rw [htokens]
    exact Nat.not_le.mpr (Ledger.hasFewTokens_iff.mp hfew)
  refine ⟨rfl, ?_, ?_⟩
  · intro sender op
    exact h.scheduled.assess_entered b coins cursor rfl sender op
  · intro sender op effect hassess
    have hadmits := Ledger.admits_of_assess hassess
    have hroom := hentered.hasRoom hadmits hnotFull
    exact ⟨_, Ledger.perform_apply hentered.conserved hadmits hroom, rfl⟩

theorem Steady.of_mirrors {b : Block} {l l₁ : Ledger} {db db₁ : Database}
    (h : Steady .memory b l l₁ l₁) (hm : Database.Mirrors l db) (hm₁ : Database.Mirrors l₁ db₁) :
    Steady .tables b db db₁ l₁ := by
  refine ⟨hm₁, ?_, ?_⟩
  · intro sender op
    rw [← hm₁.alike.assess, ← hm.alike.assess]
    exact h.verdict sender op
  · intro sender op effect hassess
    rw [← hm₁.alike.assess] at hassess
    obtain ⟨l₂, hperform, hl₂⟩ := h.performs sender op effect hassess
    have hagree := Database.agree_perform (Ledger.formed_of_assess hassess)
    obtain ⟨db₂, hperform', hm₂⟩ := hagree.exists_database hm₁ hperform
    cases hl₂
    exact ⟨db₂, hperform', hm₂⟩

/-- On either store the next block is entered without a change to any verdict. -/
theorem exists_steady {k : Backend} {s : k.Store} (hkept : Kept k.opened s) (hfew : HasFewTokens s)
    (b : Block) (coins : Coins) :
    ∃ l cursor settled s₁, k.Holds l s ∧ LedgerReads.cursor? s = .ok cursor ∧
      enter b coins cursor s = .ok settled s₁ ∧ Steady k b s s₁ (l.entered b coins cursor) := by
  cases k with
  | memory =>
    obtain ⟨settled, _, henter⟩ := hkept.sound.scheduled.enter_apply b coins s.cursor
    exact ⟨s, _, settled, _, rfl, rfl, henter, steady_ledger hkept.sound hfew b coins _⟩
  | tables =>
    obtain ⟨l, hl, hm⟩ := exists_mirrors_of_kept hkept
    obtain ⟨settled, _, henter⟩ := hl.sound.scheduled.enter_apply b coins l.cursor
    obtain ⟨db₁, henter', hm₁⟩ :=
      (Database.agree_enter b coins l.cursor).exists_database hm henter
    have hsteady := steady_ledger hl.sound (hm.alike.hasFewTokens.mpr hfew) b coins l.cursor
    exact ⟨l, _, settled, db₁, hm, hm.alike.cursor?.symm, henter', hsteady.of_mirrors hm hm₁⟩

theorem exists_setCursor {k : Backend} {l : Ledger} {s : k.Store} (h : k.Holds l s) (c : Cursor) :
    ∃ s', LedgerEdits.setCursor c s = .ok () s' ∧ k.Holds { l with cursor := some c } s' := by
  cases k with
  | memory =>
    cases h
    exact ⟨_, rfl, rfl⟩
  | tables => exact (Database.agree_setCursor c).exists_database h rfl

end Chain

namespace Desk

variable {σ : Type} {d : Desk σ} {sender : KeyId} {op : Operation}

section

variable [LedgerReads σ]

/-- What is prepared has been admitted and is the payload of the operation with its least fee. -/
theorem prepare_eq_ok {payload : Bytes} {fee : UInt64}
    (h : d.prepare sender op = .ok (payload, fee)) :
    (∃ effect, assess d.ledger d.point sender op = .ok effect) ∧ fee = op.minFee d.fees ∧
      Payload.encode op = .ok payload := by
  unfold prepare at h
  cases hassess : assess d.ledger d.point sender op with
  | error e => rw [hassess] at h; cases e <;> cases h
  | ok effect =>
    simp only [hassess] at h
    split at h
    · cases h
    · cases hencode : Payload.encode op with
      | error fault => rw [hencode] at h; cases h
      | ok bytes =>
        rw [hencode] at h
        cases h
        exact ⟨⟨effect, rfl⟩, rfl, rfl⟩

theorem prepare_eq_refused {r : Refusal} (h : d.prepare sender op = .error (.refused r)) :
    assess d.ledger d.point sender op = .error (.refused r) := by
  unfold prepare at h
  cases hassess : assess d.ledger d.point sender op with
  | error e =>
    rw [hassess] at h
    cases e <;> cases h
    rfl
  | ok effect =>
    simp only [hassess] at h
    split at h
    · cases h
    · cases hencode : Payload.encode op with
      | error fault => rw [hencode] at h; cases h
      | ok bytes => rw [hencode] at h; cases h

theorem kind_of_assess {s : σ} {point : ChainPoint} {effect : Effect}
    (h : assess s point sender op = .ok effect) : ∃ kind, op.kind? = some kind := by
  cases op with
  | unrecognized opcode body =>
    unfold assess at h
    split at h <;> cases h
  | _ => exact ⟨_, rfl⟩

end

def nextBlock (d : Desk σ) (payload : Bytes) (sender : KeyId) (fee : UInt64) : Block :=
  ⟨d.tip.height + 1, d.tip.time, [⟨0, payload, sender, fee⟩]⟩

theorem point_nextBlock (htip : d.tip.height < Word.max) (payload : Bytes) (sender : KeyId)
    (fee : UInt64) : (d.nextBlock payload sender fee).point = d.point := by
  have hheight : Word.satAdd d.tip.height 1 = d.tip.height + 1 := by
    have hmax : Word.max.toNat = UInt64.size - 1 := rfl
    have hlt := UInt64.lt_iff_toNat_lt.mp htip
    have hone : (1 : UInt64).toNat = 1 := rfl
    unfold Word.satAdd
    exact if_pos (by omega)
  unfold point nextBlock
  rw [hheight]
  rfl

theorem enters_nextBlock (htip : d.tip.height < Word.max) {cursor : Option Cursor}
    (hcursor : ∀ c, cursor = some c → c.height ≤ d.tip.height) (payload : Bytes) (sender : KeyId)
    (fee : UInt64) : entersBlock cursor (d.nextBlock payload sender fee) = true := by
  cases cursor with
  | none => rfl
  | some c =>
    have hle := hcursor c rfl
    have hlt : c.height < d.tip.height + 1 := by
      rw [UInt64.lt_iff_toNat_lt, UInt64.toNat_add]
      have hmax : Word.max.toNat = 2 ^ 64 - 1 := rfl
      have htip' := UInt64.lt_iff_toNat_lt.mp htip
      have hle' := UInt64.le_iff_toNat_le.mp hle
      have hone : (1 : UInt64).toNat = 1 := rfl
      rw [hone, Nat.mod_eq_of_lt (by omega)]
      omega
    exact decide_eq_true hlt

/-- What a block of the payload comes to, from the verdict on the store that it enters. -/
theorem takesAlone {k : Backend} {d : Desk k.Store} {l : Ledger} {cursor : Option Cursor}
    {settled : List (BillId × Settlement)} {coins : Coins} {payload : Bytes} {fee : UInt64}
    {outcome : TxOutcome} {change : Step k.Store Unit} {changed : Ledger → Ledger}
    {s₁ s₂ : k.Store} {kind : OpKind} (hkind : op.kind? = some kind) (hl : k.Holds l d.ledger)
    (hcursor : LedgerReads.cursor? d.ledger = .ok cursor)
    (henters : entersBlock cursor (d.nextBlock payload sender fee) = true)
    (henter : enter (d.nextBlock payload sender fee) coins cursor d.ledger = .ok settled s₁)
    (hl₁ : k.Holds (l.entered (d.nextBlock payload sender fee) coins cursor) s₁)
    (hencode : Payload.encode op = .ok payload) (hchange : change s₁ = .ok () s₂)
    (hl₂ : k.Holds (changed (l.entered (d.nextBlock payload sender fee) coins cursor)) s₂)
    (hoperation : applyOperation d.fees (d.nextBlock payload sender fee)
      ⟨0, payload, sender, fee⟩ op s₁ = .ok outcome s₂) :
    TakesAlone k d.fees (d.nextBlock payload sender fee) coins d.ledger outcome change changed := by
  obtain ⟨s₃, hmove, hl₃⟩ := exists_setCursor hl₂ ⟨d.tip.height + 1, 1⟩
  have hdecode := Payload.decode_of_encode (Operation.isProper_of_kind hkind) hencode
  have hprocess : process d.fees (d.nextBlock payload sender fee) ⟨0, payload, sender, fee⟩ s₁ =
      .ok outcome s₂ := (process_eq hkind hdecode).trans hoperation
  have happly : applyTx d.fees (d.nextBlock payload sender fee) ⟨0, payload, sender, fee⟩ s₁ =
      .ok outcome s₃ := applyTx_of_process hprocess hmove
  exact ⟨l, cursor, settled, s₁, s₂, s₃, hl, hcursor, henter, hl₁, hchange, hl₂, hmove, hl₃,
    apply_alone rfl hcursor henters henter happly⟩

/-- What is prepared is applied by the next block with the effect that was found, and what the rules
refuse is refused by the next block for the same reason, whoever weighs the bills that it
settles. -/
theorem next_block_agrees {k : Backend} {d : Desk k.Store} (hkept : Kept k.opened d.ledger)
    (hfew : HasFewTokens d.ledger)
    (hcursor : ∀ c, LedgerReads.cursor? d.ledger = .ok (some c) → c.height ≤ d.tip.height)
    (htip : d.tip.height < Word.max) (coins : Coins) (sender : KeyId) (op : Operation) :
    (∀ payload fee, d.prepare sender op = .ok (payload, fee) →
      ∃ effect, assess d.ledger d.point sender op = .ok effect ∧
        TakesAlone k d.fees (d.nextBlock payload sender fee) coins d.ledger
          (.applied effect.kind) (perform effect) (·.enact effect)) ∧
    ∀ r kind payload fee, d.prepare sender op = .error (.refused r) → op.kind? = some kind →
      Payload.encode op = .ok payload → op.minFee d.fees ≤ fee →
        TakesAlone k d.fees (d.nextBlock payload sender fee) coins d.ledger
          (.refused r) (pure ()) id := by
  constructor
  · intro payload fee hprepare
    obtain ⟨⟨effect, hassess⟩, rfl, hencode⟩ := prepare_eq_ok hprepare
    obtain ⟨kind, hkind⟩ := kind_of_assess hassess
    have hpoint := point_nextBlock htip payload sender (op.minFee d.fees)
    obtain ⟨l, cursor, settled, s₁, hl, hread, henter, hsteady⟩ :=
      exists_steady hkept hfew (d.nextBlock payload sender (op.minFee d.fees)) coins
    have henters := enters_nextBlock htip (fun c hc => hcursor c (hread.trans (congrArg _ hc)))
      payload sender (op.minFee d.fees)
    have hverdict : assess s₁ (d.nextBlock payload sender (op.minFee d.fees)).point sender op =
        .ok effect := by
      rw [hsteady.verdict, hpoint]
      exact hassess
    obtain ⟨s₂, hperform, hl₂⟩ := hsteady.performs sender op effect hverdict
    refine ⟨effect, hassess, ?_⟩
    refine takesAlone hkind hl hread henters henter hsteady.holds hencode hperform hl₂ ?_
    rw [applyOperation_of_assess (UInt64.le_refl _)]
    simp only [hverdict]
    exact (bind_ok hperform _).trans rfl
  · intro r kind payload fee hprepare hkind hencode hfee
    have hassess := prepare_eq_refused hprepare
    have hpoint := point_nextBlock htip payload sender fee
    obtain ⟨l, cursor, settled, s₁, hl, hread, henter, hsteady⟩ :=
      exists_steady hkept hfew (d.nextBlock payload sender fee) coins
    have henters := enters_nextBlock htip (fun c hc => hcursor c (hread.trans (congrArg _ hc)))
      payload sender fee
    have hverdict : assess s₁ (d.nextBlock payload sender fee).point sender op =
        .error (.refused r) := by
      rw [hsteady.verdict, hpoint]
      exact hassess
    refine takesAlone hkind hl hread henters henter hsteady.holds hencode rfl hsteady.holds ?_
    rw [applyOperation_of_assess hfee]
    simp only [hverdict]

/-- After a block in which an address takes a name, another address takes a name of its own, and is
refused the one that is taken. -/
theorem next_block_agrees_on_names :
    let d : Desk Ledger := ⟨(apply (.flat 0) fresh issue ∅ (∅ : Ledger)).store,
      SortedMap.empty.insert ⟨.fill 20 2⟩ 5, .flat 1, ⟨1, 10⟩, 30⟩
    let sender : KeyId := ⟨.fill 20 2⟩
    let payload (name : String) : Bytes := 0xc8 :: Wire.ofText name
    d.prepare sender (.registerName "bob") = .ok (payload "bob", 1) ∧
      d.prepare sender (.registerName "ada") = .error (.refused (.nameTaken "ada")) ∧
      (∃ effect, TakesAlone .memory d.fees (d.nextBlock (payload "bob") sender 1) ∅ d.ledger
        (.applied effect.kind) (perform effect) (·.enact effect)) ∧
      TakesAlone .memory d.fees (d.nextBlock (payload "ada") sender 1) ∅ d.ledger
        (.refused (.nameTaken "ada")) (pure ()) id := by
  intro d sender payload
  have hkept : Kept (∅ : Ledger) d.ledger := .block (.flat 0) fresh issue ∅ .start
  have hfew : HasFewTokens d.ledger := Ledger.hasFewTokens_iff.mpr (by decide +kernel)
  have hcursor : ∀ c, LedgerReads.cursor? d.ledger = .ok (some c) → c.height ≤ d.tip.height := by
    have hstored : d.ledger.cursor = some ⟨1, 2⟩ := by decide +kernel
    intro c hc
    cases hstored.symm.trans (Except.ok.inj hc)
    decide
  have hbob : d.prepare sender (.registerName "bob") = .ok (payload "bob", 1) := rfl
  have hada : d.prepare sender (.registerName "ada") = .error (.refused (.nameTaken "ada")) := rfl
  have hagree := next_block_agrees (k := .memory) hkept hfew hcursor (by decide) ∅ sender
  obtain ⟨effect, _, hbob'⟩ := (hagree (.registerName "bob")).1 _ _ hbob
  have hada' := (hagree (.registerName "ada")).2 _ .registerName (payload "ada") 1 hada
    rfl rfl (by decide)
  exact ⟨hbob, hada, ⟨effect, hbob'⟩, hada'⟩

end Desk

end CivicLedger
