import CivicLedger.Proofs.Chain.Positions
import CivicLedger.Proofs.Chain.Spared
import CivicLedger.Proofs.Node.Digest
import Mathlib.Data.List.Forall2

/-!
# Streams without void transactions

A transaction that is refused, malformed or unrecognized leaves nothing behind but the cursor, which
the next one moves all the same. A stream of blocks without all such transactions therefore comes to
the same: in every block the same operations are applied and the same bills are settled, the same
blocks are refused or fail, and the stores differ at most in the cursor.
-/

namespace CivicLedger

open Chain Program

namespace TxOutcome

def isApplied : TxOutcome → Bool
  | applied _ => true
  | _ => false

/-- The operation was not carried out, and is not going to be. -/
def isVoid : TxOutcome → Bool
  | refused _ | malformed _ | unrecognized _ => true
  | applied _ | alreadyApplied => false

end TxOutcome

def onlyApplied (outcomes : List (UInt32 × TxOutcome)) : List (UInt32 × TxOutcome) :=
  outcomes.filter fun o => o.2.isApplied

def BlockReport.onlyApplied (r : BlockReport) : BlockReport :=
  { r with outcomes := CivicLedger.onlyApplied r.outcomes }

def withoutVoid (outcomes : List (UInt32 × TxOutcome)) (txs : List Tx) : List Tx :=
  txs.filter fun tx => !outcomes.any fun o => o.1 == tx.index && o.2.isVoid

def Database.withoutCursor (db : Database) : Database :=
  db.setTable .notes ((db.table .notes).erase cursorKey)

def Backend.withoutCursor : (k : Backend) → k.Store → k.Store
  | memory, l => Ledger.atCursor l none
  | tables, db => Database.withoutCursor db

namespace Chain

section

variable {σ : Type} [LedgerEdits σ]

structure Visit (σ : Type) where
  outcomes : List (UInt32 × TxOutcome)
  applied : Applied σ

def Arrival.visit (c : Arrival) (a : Applicant) (s : σ) : Visit σ := ⟨c.outcomes a s, c.apply a s⟩

def visits : List Arrival → Applicant → σ → List (Visit σ)
  | [], _, _ => []
  | c :: rest, a, s =>
    let v := c.visit a s
    v :: visits rest v.applied.applicant v.applied.store

def Arrival.thinned (c : Arrival) (v : Visit σ) : Arrival :=
  { c with block := c.block.carrying (withoutVoid v.outcomes c.block.txs) }

def thinned (stream : List Arrival) (vs : List (Visit σ)) : List Arrival :=
  stream.zipWith Arrival.thinned vs

end

/-- A visit comes to the same as another, in which void transactions stood between the others. -/
structure SameDeeds (k : Backend) (v w : Visit k.Store) : Prop where
  outcomes : w.outcomes = onlyApplied v.outcomes
  /-- The report tells the same settlements, or the fault is the same. -/
  result : w.applied.result = v.applied.result.map BlockReport.onlyApplied
  applicant : w.applied.applicant = v.applied.applicant
  store : k.withoutCursor w.applied.store = k.withoutCursor v.applied.store

section

variable {σ : Type} [LedgerEdits σ] {fees : FeeSchedule} {b : Block} {tx : Tx} {s s' : σ}
  {outcome : TxOutcome}

/-- A transaction is applied, or it is void and changes nothing. -/
theorem applied_or_void (h : process fees b tx s = .ok outcome s') :
    outcome.isApplied = true ∨ outcome.isVoid = true ∧ s' = s := by
  have hoperation {op : Operation} (h : applyOperation fees b tx op s = .ok outcome s') :
      outcome.isApplied = true ∨ outcome.isVoid = true ∧ s' = s := by
    by_cases hfee : tx.fee < op.minFee fees
    · unfold applyOperation at h
      simp only [hfee, if_true] at h
      cases h
      exact .inr ⟨rfl, rfl⟩
    rw [applyOperation_of_assess (UInt64.not_lt.mp hfee)] at h
    cases hassess : assess s b.point tx.sender op with
    | ok effect =>
      rw [hassess] at h
      obtain ⟨_, t, _, hpure⟩ := bind_eq_ok.mp h
      obtain ⟨rfl, _⟩ := pure_eq_ok.mp hpure
      exact .inl rfl
    | error e =>
      rw [hassess] at h
      cases e with
      | refused r =>
        cases h
        exact .inr ⟨rfl, rfl⟩
      | store fault => cases h
  unfold process at h
  cases hdecode : Payload.decode tx.payload with
  | error fault =>
    rw [hdecode] at h
    cases h
    exact .inr ⟨rfl, rfl⟩
  | ok op =>
    rw [hdecode] at h
    cases op with
    | unrecognized opcode body =>
      cases h
      exact .inr ⟨rfl, rfl⟩
    | _ => exact hoperation h

theorem isVoid_of_applied (h : outcome.isApplied = true) : outcome.isVoid = false := by
  cases outcome with
  | applied kind => rfl
  | _ => cases h

theorem isApplied_of_void (h : outcome.isVoid = true) : outcome.isApplied = false := by
  cases outcome with
  | applied kind => cases h
  | _ => rfl

theorem onlyApplied_cons_of_applied (i : UInt32) (h : outcome.isApplied = true)
    (os : List (UInt32 × TxOutcome)) :
    onlyApplied ((i, outcome) :: os) = (i, outcome) :: onlyApplied os :=
  List.filter_cons_of_pos h

theorem onlyApplied_cons_of_void (i : UInt32) (h : outcome.isVoid = true)
    (os : List (UInt32 × TxOutcome)) : onlyApplied ((i, outcome) :: os) = onlyApplied os :=
  List.filter_cons_of_neg (by simp [isApplied_of_void h])

theorem withoutVoid_nil (txs : List Tx) : withoutVoid [] txs = txs :=
  List.filter_eq_self.mpr fun _ _ => rfl

/-- The outcome of a transaction says nothing of those behind it. -/
theorem withoutVoid_cons {outcomes : List (UInt32 × TxOutcome)} {txs : List Tx}
    (hlater : ∀ x ∈ txs, tx.index < x.index) (hfrom : ∀ o ∈ outcomes, ∃ x ∈ txs, o.1 = x.index) :
    withoutVoid ((tx.index, outcome) :: outcomes) (tx :: txs) =
      if outcome.isVoid then withoutVoid outcomes txs else tx :: withoutVoid outcomes txs := by
  have hhead : outcomes.any (fun o => o.1 == tx.index && o.2.isVoid) = false := by
    rw [List.any_eq_false]
    intro o ho
    obtain ⟨x, hx, hindex⟩ := hfrom o ho
    have hne : o.1 ≠ tx.index := by
      rw [hindex]
      exact (UInt32.ne_of_lt (hlater x hx)).symm
    simp [hne]
  have htail : txs.filter (fun x =>
      !((tx.index, outcome) :: outcomes).any fun o => o.1 == x.index && o.2.isVoid) =
      withoutVoid outcomes txs := by
    refine List.filter_congr fun x hx => ?_
    have hne : tx.index ≠ x.index := UInt32.ne_of_lt (hlater x hx)
    simp [hne]
  unfold withoutVoid at htail ⊢
  rw [List.filter_cons, htail, List.any_cons, hhead]
  cases outcome.isVoid <;> simp

end

/-- The second result is the first one without what void transactions did: `g` of the value, or the
same fault, and the same ledger up to the cursor. `P` holds of both cursors. -/
inductive Pared {α : Type} (P : Option Cursor → Prop) (g : α → α) :
    EStateM.Result ChainFault Ledger α → EStateM.Result ChainFault Ledger α → Prop where
  | ok {a : α} {l : Ledger} {c : Option Cursor} (hl : P l.cursor) (hc : P c) :
    Pared P g (.ok a l) (.ok (g a) (l.atCursor c))
  | error {fault : ChainFault} {l : Ledger} {c : Option Cursor} (hl : P l.cursor) (hc : P c) :
    Pared P g (.error fault l) (.error fault (l.atCursor c))

section

variable {P : Option Cursor → Prop} {fees : FeeSchedule} {b : Block} {coins : Coins}
  {cursor cursor' c : Option Cursor} {l : Ledger}

theorem Pared.map {α β : Type} {g : α → α} {g' : β → β} {p p' : Step Ledger α} {l' : Ledger}
    (h : Pared P g (p l) (p' l')) (f f' : α → β) (hf : ∀ a, f' (g a) = g' (f a)) :
    Pared P g' ((p >>= fun a => pure (f a)) l) ((p' >>= fun a => pure (f' a)) l') := by
  rw [bind_apply, bind_apply]
  generalize p l = r, p' l' = r' at h
  cases h with
  | ok hl hc =>
    simp only [pure_apply, hf]
    exact .ok hl hc
  | error hl hc => exact .error hl hc

/-- Transactions of a block come to the same without the void ones among them. -/
theorem pared_txs (fees : FeeSchedule) (hP : ∀ i, P (some ⟨b.height, i⟩))
    (h : ∀ tx, isCovered cursor b tx = false) (h' : ∀ tx, isCovered cursor' b tx = false)
    {txs : List Tx} (hplaced : txs.Pairwise fun x y => x.index < y.index) (hl : P l.cursor)
    (hc : P c) :
    let outcomes := txOutcomes fees b cursor txs l
    let rest := withoutVoid outcomes txs
    txOutcomes fees b cursor' rest (l.atCursor c) = onlyApplied outcomes ∧
      Pared P onlyApplied (txs.mapM (applyOrPass fees b cursor) l)
        (rest.mapM (applyOrPass fees b cursor') (l.atCursor c)) := by
  induction txs generalizing l c with
  | nil => exact ⟨rfl, .ok hl hc⟩
  | cons tx rest ih =>
    obtain ⟨hlater, hplaced⟩ := List.pairwise_cons.mp hplaced
    have hfull : applyOrPass fees b cursor tx l = _ :=
      Ledger.applyOrPass_atCursor fees h tx l l.cursor
    have hthin := Ledger.applyOrPass_atCursor fees h' tx l c
    intro outcomes others
    cases hp : process fees b tx l with
    | error fault l₁ =>
      -- Nothing comes of the transactions, so that they all stay.
      rw [hp] at hfull hthin
      have hnone : outcomes = [] := by
        unfold outcomes
        rw [txOutcomes, hfull]
      have hothers : others = tx :: rest := by
        unfold others
        rw [hnone, withoutVoid_nil]
      rw [hothers, hnone, txOutcomes, hthin, List.mapM_cons, List.mapM_cons, bind_error hfull,
        bind_error hthin]
      exact ⟨rfl, .error hl hc⟩
    | ok outcome l₁ =>
      rw [hp] at hfull hthin
      have hnext : P (some ⟨b.height, indexAfter tx.index⟩) := hP _
      have houtcomes : outcomes = (tx.index, outcome) :: txOutcomes fees b cursor rest
          (l₁.atCursor (some ⟨b.height, indexAfter tx.index⟩)) := by
        unfold outcomes
        rw [txOutcomes, hfull]
      have hothers : others = _ := (congrArg (withoutVoid · (tx :: rest)) houtcomes).trans
        (withoutVoid_cons hlater fun o ho => exists_tx_of_mem_txOutcomes ho)
      rw [hothers, houtcomes, List.mapM_cons, bind_ok hfull]
      rcases applied_or_void hp with happlied | ⟨hvoid, rfl⟩
      · rw [isVoid_of_applied happlied]
        obtain ⟨hsame, hrest⟩ := ih hplaced (l := l₁.atCursor _) hnext hnext
        have hkeep := onlyApplied_cons_of_applied tx.index happlied
        simp only [Bool.false_eq_true, if_false]
        rw [txOutcomes, hthin, List.mapM_cons, bind_ok hthin, hkeep]
        exact ⟨congrArg _ hsame, hrest.map _ _ fun os => (hkeep os).symm⟩
      · rw [if_pos hvoid]
        obtain ⟨hsame, hrest⟩ := ih hplaced (l := l₁.atCursor _) hnext hc
        have hdrop := onlyApplied_cons_of_void tx.index hvoid
        rw [hdrop]
        have hmap := hrest.map (List.cons (tx.index, outcome)) id fun os => (hdrop os).symm
        simp only [id_eq, bind_pure] at hmap
        exact ⟨hsame, hmap⟩

theorem txOutcomes_carrying (fees : FeeSchedule) (b : Block) (xs : List Tx)
    (cursor : Option Cursor) (txs : List Tx) (l : Ledger) :
    txOutcomes fees (b.carrying xs) cursor txs l = txOutcomes fees b cursor txs l := by
  induction txs generalizing l with
  | nil => rfl
  | cons tx rest ih =>
    rw [txOutcomes, txOutcomes, applyOrPass_carrying]
    cases applyOrPass fees b cursor tx l with
    | ok outcome l' => exact congrArg _ (ih l')
    | error fault l' => rfl

/-- A block above both cursors comes to the same without its void transactions. -/
theorem pared_body (fees : FeeSchedule) (coins : Coins) (hP : ∀ i, P (some ⟨b.height, i⟩))
    (h : entersBlock l.cursor b = true) (h' : entersBlock c b = true)
    (hplaced : b.txs.Pairwise fun x y => x.index < y.index) (hl : P l.cursor) (hc : P c) :
    let outcomes := bodyOutcomes fees b coins l.cursor l
    let pared := b.carrying (withoutVoid outcomes b.txs)
    bodyOutcomes fees pared coins c (l.atCursor c) = onlyApplied outcomes ∧
      Pared P BlockReport.onlyApplied (applyBody fees b coins l.cursor l)
        (applyBody fees pared coins c (l.atCursor c)) := by
  intro outcomes pared
  have henter : enter pared coins c (l.atCursor c) = _ := Ledger.enter_atCursor coins l h h' c
  cases hrun : enter b coins l.cursor l with
  | error fault l₁ =>
    rw [hrun] at henter
    have hnone : outcomes = [] := by
      unfold outcomes bodyOutcomes
      rw [hrun]
    unfold bodyOutcomes applyBody
    rw [henter, bind_error hrun, bind_error henter, hnone, atomically_of_error hrun]
    exact ⟨rfl, .error hl hc⟩
  | ok settled l₁ =>
    rw [hrun] at henter
    obtain ⟨_, j, hcursor, _⟩ := cursor?_enter (s := l) rfl (not_lt_of_enters h) hrun
    have hin : P l₁.cursor := by
      rw [show l₁.cursor = some ⟨b.height, j⟩ from Except.ok.inj hcursor]
      exact hP j
    have hsome : outcomes = txOutcomes fees b l.cursor b.txs l₁ := by
      unfold outcomes bodyOutcomes
      rw [hrun]
    -- Both go on from the same ledger, whose cursor stands at the beginning of the block.
    obtain ⟨hsame, hrest⟩ := pared_txs fees hP (not_covered_of_enters h)
      (not_covered_of_enters h') hplaced hin hin
    unfold bodyOutcomes applyBody
    rw [henter, bind_ok hrun, bind_ok henter]
    unfold pared
    rw [hsome]
    let report (os : List (UInt32 × TxOutcome)) : BlockReport := ⟨b.height, os, settled, false⟩
    exact ⟨(txOutcomes_carrying fees b _ c _ l₁).trans hsame,
      hrest.map report report fun _ => rfl⟩

def Applied.ofResult (b : Block) : EStateM.Result ChainFault Ledger BlockReport → Applied Ledger
  | .ok report l => ⟨.ok report, after b (.ok report), l⟩
  | .error fault l => ⟨.error fault, after b (.error fault), l⟩

theorem Pared.ofResult {r r' : EStateM.Result ChainFault Ledger BlockReport}
    (h : Pared P BlockReport.onlyApplied r r') :
    (Applied.ofResult b r').result = (Applied.ofResult b r).result.map BlockReport.onlyApplied ∧
      (Applied.ofResult b r').applicant = (Applied.ofResult b r).applicant ∧
      P (Applied.ofResult b r).store.cursor ∧
      ∃ c, (Applied.ofResult b r').store = (Applied.ofResult b r).store.atCursor c ∧ P c := by
  cases h with
  | ok hl hc => exact ⟨rfl, rfl, hl, _, rfl, hc⟩
  | error hl hc => exact ⟨rfl, rfl, hl, _, rfl, hc⟩

/-- What a stream comes to in a block that the check lets pass and that is above the cursor. -/
theorem visit_of_enters {x : Arrival} {a : Applicant}
    (hcheck : check (x.applicant a) x.block = .ok ()) (h : entersBlock l.cursor x.block = true) :
    x.visit a l = ⟨bodyOutcomes x.fees x.block x.coins l.cursor l,
      .ofResult x.block (applyBody x.fees x.block x.coins l.cursor l)⟩ := by
  have hnot : (l.cursor.any fun d => x.block.height < d.height) = false := by
    rw [Option.any_eq_false_iff_get]
    exact fun hd => decide_eq_false (not_lt_of_enters h _ (Option.some_get hd).symm)
  have houtcomes : blockOutcomes x.fees x.block x.coins l =
      bodyOutcomes x.fees x.block x.coins l.cursor l := if_neg (Bool.eq_false_iff.mp hnot)
  unfold Arrival.visit
  rw [outcomes_of_check hcheck, houtcomes]
  unfold Arrival.apply Chain.apply
  rw [hcheck, ← Ledger.applyChecked_eq (not_lt_of_enters h)]
  dsimp only
  cases applyChecked x.fees x.block x.coins l <;> rfl

theorem visit_of_check_error {x : Arrival} {a : Applicant} {fault : ChainFault}
    (hcheck : check (x.applicant a) x.block = .error fault) :
    x.visit a l = ⟨[], .error fault, x.applicant a, l⟩ := by
  unfold Arrival.visit Arrival.outcomes Arrival.apply Chain.apply
  rw [hcheck]

/-- A stream comes to the same in a block that is above both cursors, without its void
transactions. -/
theorem pared_visit {x : Arrival} {a : Applicant} (hP : ∀ i, P (some ⟨x.block.height, i⟩))
    (h : entersBlock l.cursor x.block = true) (h' : entersBlock c x.block = true)
    (hl : P l.cursor) (hc : P c) :
    let v := x.visit a l
    let w := (x.thinned v).visit a (l.atCursor c)
    SameDeeds .memory v w ∧ P v.applied.store.cursor ∧
      ∃ c', w.applied.store = v.applied.store.atCursor c' ∧ P c' := by
  intro v w
  cases hcheck : check (x.applicant a) x.block with
  | error fault =>
    have hv : v = _ := visit_of_check_error hcheck
    have hsame : x.thinned v = x := by
      unfold Arrival.thinned
      rw [hv, withoutVoid_nil]
      rfl
    have hw : w = ⟨[], .error fault, x.applicant a, l.atCursor c⟩ := by
      unfold w
      rw [hsame]
      exact visit_of_check_error hcheck
    rw [hv, hw]
    exact ⟨⟨rfl, rfl, rfl, rfl⟩, hl, c, rfl, hc⟩
  | ok _ =>
    have hplaced := pairwise_of_check hcheck
    have hpared : check (x.applicant a) (x.thinned v).block = .ok () := by
      refine (check_carrying _ ?_).trans hcheck
      have hsub : (withoutVoid v.outcomes x.block.txs).Pairwise fun x y => x.index < y.index :=
        hplaced.sublist List.filter_sublist
      rw [misplaced?_of_pairwise hplaced, misplaced?_of_pairwise hsub]
    have hv : v = _ := visit_of_enters hcheck h
    have hw : w = _ := visit_of_enters hpared h'
    obtain ⟨houtcomes, hbody⟩ := pared_body x.fees x.coins hP h h' hplaced hl hc
    obtain ⟨hresult, happlicant, hcursor, c', hstore, hc'⟩ := hbody.ofResult (b := x.block)
    have hdeeds := congrArg (Ledger.atCursor · none) hstore
    rw [hw, hv]
    exact ⟨⟨houtcomes, hresult, happlicant, hdeeds⟩, hcursor, c', hstore, hc'⟩

end

end Chain

namespace Database

variable {l : Ledger} {db : Database}

theorem agree_applyOrPass (fees : FeeSchedule) (b : Block) (cursor : Option Cursor) (tx : Tx) :
    Agree Mirrors (applyOrPass fees b cursor tx) (applyOrPass fees b cursor tx) := by
  unfold applyOrPass
  exact .ite (.pure _) ((agree_applyTx fees b tx).bind fun _ => .pure _)

theorem Mirrors.txOutcomes (h : Mirrors l db) (fees : FeeSchedule) (b : Block)
    (cursor : Option Cursor) (txs : List Tx) :
    Chain.txOutcomes fees b cursor txs db = Chain.txOutcomes fees b cursor txs l := by
  induction txs generalizing l db with
  | nil => rfl
  | cons tx rest ih =>
    have hstep := agree_applyOrPass fees b cursor tx l db h
    rw [Chain.txOutcomes, Chain.txOutcomes]
    generalize applyOrPass fees b cursor tx l = r, applyOrPass fees b cursor tx db = r' at hstep
    cases hstep with
    | ok hm => exact congrArg _ (ih hm)
    | error _ => rfl

/-- The transactions of an arrival come to the same on a ledger and on a database that holds it. -/
theorem Mirrors.outcomes (h : Mirrors l db) (x : Arrival) (a : Applicant) :
    x.outcomes a db = x.outcomes a l := by
  have hbody (cursor : Option Cursor) : bodyOutcomes x.fees x.block x.coins cursor db =
      bodyOutcomes x.fees x.block x.coins cursor l := by
    have henter := agree_enter x.block x.coins cursor l db h
    unfold bodyOutcomes
    generalize enter x.block x.coins cursor l = r, enter x.block x.coins cursor db = r' at henter
    cases henter with
    | ok hm => exact hm.txOutcomes x.fees x.block cursor x.block.txs
    | error _ => rfl
  unfold Arrival.outcomes blockOutcomes
  rw [h.cursor?]
  simp only [hbody]
  rfl

theorem Mirrors.withoutCursor (h : Mirrors l db) :
    Mirrors (l.atCursor none) db.withoutCursor := by
  refine h.withNotes (fun t => by cases t <;> rfl) (h.legible.congr rfl) fun key => ?_
  rw [SortedMap.get?_erase, h.notes]
  unfold noted
  by_cases hkey : key = cursorKey
  · rw [if_pos hkey, if_pos hkey]
    rfl
  · rw [if_neg hkey, if_neg hkey, if_neg hkey]
    rfl

end Database

namespace Backend

variable {k : Backend} {l : Ledger} {s : k.Store}

theorem Holds.withoutCursor (h : k.Holds l s) : k.Holds (l.atCursor none) (k.withoutCursor s) := by
  cases k with
  | memory =>
    cases h
    rfl
  | tables => exact Database.Mirrors.withoutCursor h

/-- A stream comes to the same in a store as in the ledger that it holds. -/
theorem Holds.visit (h : k.Holds l s) (x : Arrival) (a : Applicant) :
    (x.visit a s).outcomes = (x.visit a l).outcomes ∧
      (x.visit a s).applied.result = (x.visit a l).applied.result ∧
      (x.visit a s).applied.applicant = (x.visit a l).applied.applicant ∧
      k.Holds (x.visit a l).applied.store (x.visit a s).applied.store := by
  obtain ⟨hresult, happlicant, hstore⟩ := h.apply x.fees (x.applicant a) x.block x.coins
  refine ⟨?_, hresult, happlicant, hstore⟩
  cases k with
  | memory =>
    cases h
    rfl
  | tables => exact Database.Mirrors.outcomes h x a

end Backend

namespace Chain

theorem thinned_congr {σ τ : Type} {x : Arrival} {v : Visit σ} {w : Visit τ}
    (h : v.outcomes = w.outcomes) : x.thinned v = x.thinned w := by
  unfold Arrival.thinned
  rw [h]

theorem sameDeeds_of_holds {k : Backend} {stream : List Arrival} {a : Applicant} {l : Ledger}
    {c : Option Cursor} {s t : k.Store}
    (hheights : stream.Pairwise fun x y => x.block.height < y.block.height)
    (hs : k.Holds l s) (ht : k.Holds (l.atCursor c) t)
    (hl : ∀ x ∈ stream, entersBlock l.cursor x.block = true)
    (hc : ∀ x ∈ stream, entersBlock c x.block = true) :
    List.Forall₂ (SameDeeds k) (visits stream a s)
      (visits (thinned stream (visits stream a s)) a t) := by
  induction stream generalizing a l c s t with
  | nil => exact .nil
  | cons x rest ih =>
    obtain ⟨hlater, hheights⟩ := List.pairwise_cons.mp hheights
    -- Both cursors stay below every block that is still to come.
    have hP (i : UInt32) : ∀ y ∈ rest, entersBlock (some ⟨x.block.height, i⟩) y.block = true :=
      fun y hy => decide_eq_true (hlater y hy)
    obtain ⟨hdeeds, hcursor, c', hstore, hc'⟩ := pared_visit (a := a)
      (P := fun d => ∀ y ∈ rest, entersBlock d y.block = true) hP (hl x List.mem_cons_self)
      (hc x List.mem_cons_self) (fun y hy => hl y (List.mem_cons_of_mem x hy))
      fun y hy => hc y (List.mem_cons_of_mem x hy)
    obtain ⟨houtcomes, hresult, happlicant, hkept⟩ := hs.visit x a
    have hsame : x.thinned (x.visit a s) = x.thinned (x.visit a l) := thinned_congr houtcomes
    obtain ⟨houtcomes', hresult', happlicant', hkept'⟩ := ht.visit (x.thinned (x.visit a s)) a
    rw [hsame] at houtcomes' hresult' happlicant' hkept'
    rw [hstore] at hkept'
    change List.Forall₂ (SameDeeds k) (x.visit a s :: _) ((x.thinned (x.visit a s)).visit a t :: _)
    rw [hsame]
    refine .cons ⟨?_, ?_, ?_, ?_⟩ ?_
    · rw [houtcomes', houtcomes, hdeeds.outcomes]
    · rw [hresult', hresult, hdeeds.result]
    · rw [happlicant', happlicant, hdeeds.applicant]
    · exact hkept'.withoutCursor.unique hkept.withoutCursor
    · rw [happlicant', happlicant, hdeeds.applicant]
      exact ih hheights hkept hkept' hcursor hc'

/-- What comes of a stream of rising blocks on a new store comes of it without its void
transactions: in each block the same operations are applied at the same indices and the same bills
are settled, or the block fails with the same fault, and the stores differ at most in the cursor. -/
theorem void_transactions_leave_nothing (k : Backend) (stream : List Arrival)
    (hheights : stream.Pairwise fun x y => x.block.height < y.block.height) :
    List.Forall₂ (SameDeeds k) (visits stream fresh k.opened)
      (visits (thinned stream (visits stream fresh k.opened)) fresh k.opened) := by
  have hopened : k.Holds ∅ k.opened := by
    cases k with
    | memory => rfl
    | tables => exact Database.mirrors_opened
  have habove : ∀ x ∈ stream, entersBlock none x.block = true := fun _ _ => rfl
  exact sameDeeds_of_holds hheights hopened hopened habove habove

/-- Two blocks in which a payload of no bytes and a name that is taken stand among other
transactions. -/
def cluttered : List Arrival :=
  let owner : KeyId := ⟨.fill 20 1⟩
  let other : KeyId := ⟨.fill 20 2⟩
  let payload (op : Operation) : Bytes := (Payload.bytesOf op).1 :: (Payload.bytesOf op).2
  [⟨false, .flat 0, ⟨1, 10, [⟨0, payload (.registerName "ada"), owner, 0⟩, ⟨1, [], other, 0⟩,
    ⟨2, payload (.createToken ⟨"GOLD", "Gold", ⟨.fill 20 7⟩, 1000, 2⟩), owner, 0⟩]⟩, ∅⟩,
    ⟨false, .flat 0, ⟨2, 20, [⟨3, payload (.transferToken .first other 10 ""), owner, 0⟩,
    ⟨5, payload (.registerName "ada"), other, 0⟩]⟩, ∅⟩]

theorem void_transactions_leave_nothing_in_cluttered :
    let run := visits cluttered fresh (∅ : Ledger)
    (cluttered.Pairwise fun x y => x.block.height < y.block.height) ∧
      (thinned cluttered run).map (fun x => x.block.txs.map Tx.index) = [[0, 2], [3]] ∧
      List.Forall₂ (SameDeeds .memory) run (visits (thinned cluttered run) fresh (∅ : Ledger)) := by
  have hheights : cluttered.Pairwise fun x y => x.block.height < y.block.height := by decide
  exact ⟨hheights, by decide +kernel, void_transactions_leave_nothing .memory cluttered hheights⟩

end Chain

end CivicLedger
