import CivicLedger.Proofs.Chain.Spared
import CivicLedger.Proofs.Node.Digest
import CivicLedger.Proofs.State.Votes

/-!
# Votes in any order

What becomes of a vote depends on its sender's other votes and on records that votes do not change.
A block of votes from different senders therefore comes to the same in whichever order its
transactions stand.
-/

namespace CivicLedger

open Chain Program

def Tx.IsVote (tx : Tx) : Prop := ∀ op, Payload.decode tx.payload = .ok op → op.isVote = true

instance (tx : Tx) : Decidable tx.IsVote :=
  match h : Payload.decode tx.payload with
  | .ok op => decidable_of_iff (op.isVote = true)
    ⟨fun hop _ ho => Except.ok.inj (h.symm.trans ho) ▸ hop, fun hall => hall op h⟩
  | .error _ => isTrue fun _ ho => nomatch h.symm.trans ho

structure SeparateVotes (txs : List Tx) : Prop where
  votes : ∀ tx ∈ txs, tx.IsVote
  senders : (txs.map Tx.sender).Nodup

theorem SeparateVotes.perm {xs ys : List Tx} (h : SeparateVotes xs) (hperm : xs.Perm ys) :
    SeparateVotes ys where
  votes tx htx := h.votes tx (hperm.mem_iff.mpr htx)
  senders := (hperm.map Tx.sender).nodup_iff.mp h.senders

theorem SeparateVotes.tail {tx : Tx} {rest : List Tx} (h : SeparateVotes (tx :: rest)) :
    SeparateVotes rest where
  votes x hx := h.votes x (List.mem_cons_of_mem tx hx)
  senders := (List.nodup_cons.mp h.senders).2

def Tx.placed (txs : List Tx) (places : List UInt32) : List Tx :=
  (txs.zip places).map fun p => { p.1 with index := p.2 }

namespace Tx

variable {txs : List Tx} {places : List UInt32}

theorem map_index_placed (h : places.length = txs.length) :
    (placed txs places).map index = places := by
  unfold placed
  rw [List.map_map]
  exact List.map_snd_zip (Nat.le_of_eq h)

theorem map_sender_placed (h : places.length = txs.length) :
    (placed txs places).map sender = txs.map sender := by
  have hsplit : (placed txs places).map sender = ((txs.zip places).map Prod.fst).map sender := by
    unfold placed
    rw [List.map_map, List.map_map]
    rfl
  rw [hsplit, List.map_fst_zip (Nat.le_of_eq h.symm)]

end Tx

namespace Block

/-- The block with its transactions in another order. Each takes the index of its new place. -/
def reordered (b : Block) (txs : List Tx) : Block :=
  b.carrying (Tx.placed txs (b.txs.map Tx.index))

def verdicts (b : Block) (r : BlockReport) : List (KeyId × TxOutcome) :=
  (b.txs.map Tx.sender).zip (r.outcomes.map Prod.snd)

end Block

namespace Ledger

variable {l m : Ledger} {fees : FeeSchedule} {b : Block} {tx x y : Tx} {xs ys : List Tx}

structure Casts (l : Ledger) (fees : FeeSchedule) (b : Block) (tx : Tx) (outcome : TxOutcome)
    (r : Recast) : Prop where
  runs : process fees b tx l = .ok outcome (r.apply l)
  sound : (r.apply l).Sound

/-- A vote is judged alike on ledgers that its judgement cannot tell apart, and changes the votes of
its sender in the same way. -/
theorem exists_casts (fees : FeeSchedule) (b : Block) (hvote : tx.IsVote) (hl : l.Sound)
    (hm : m.Sound) (hsame : SeenAlike tx.sender l m) :
    ∃ outcome r, r.By tx.sender ∧ l.Casts fees b tx outcome r ∧ m.Casts fees b tx outcome r := by
  have hidle {outcome : TxOutcome} (hpl : process fees b tx l = .ok outcome l)
      (hpm : process fees b tx m = .ok outcome m) :
      ∃ outcome r, r.By tx.sender ∧ l.Casts fees b tx outcome r ∧ m.Casts fees b tx outcome r :=
    ⟨outcome, {}, Recast.by_idle _, ⟨hpl, hl⟩, hpm, hm⟩
  cases hdecode : Payload.decode tx.payload with
  | error fault =>
    have hmalformed (n : Ledger) : process fees b tx n = .ok (.malformed fault) n := by
      unfold process
      rw [hdecode]
      rfl
    exact hidle (hmalformed l) (hmalformed m)
  | ok op =>
    have hop := hvote op hdecode
    have hprocess (n : Ledger) : process fees b tx n = applyOperation fees b tx op n := by
      unfold process
      rw [hdecode]
      cases op <;> first | rfl | cases hop
    by_cases hfee : tx.fee < op.minFee fees
    · have hpoor (n : Ledger) : process fees b tx n =
          .ok (.refused (.feeTooLow tx.fee (op.minFee fees))) n :=
        (hprocess n).trans (congrFun (if_pos hfee) n)
      exact hidle (hpoor l) (hpoor m)
    have happly (n : Ledger) :=
      (hprocess n).trans (applyOperation_of_assess (UInt64.not_lt.mp hfee))
    have hassess : assess l b.point tx.sender op = assess m b.point tx.sender op :=
      hsame.assess hop
    cases heffect : assess l b.point tx.sender op with
    | error e =>
      cases e with
      | refused r =>
        have hrefused {n : Ledger} (ha : assess n b.point tx.sender op = .error (.refused r)) :
            process fees b tx n = .ok (.refused r) n := by rw [happly, ha]
        exact hidle (hrefused heffect) (hrefused (hassess ▸ heffect))
      | store fault => exact absurd heffect ((decides_assess op).ne_fault fault)
    | ok effect =>
      obtain ⟨hby, henact, hroom⟩ := (admitted_of_assess heffect).recast hop
      have hcasts {n : Ledger} (hn : n.Sound)
          (ha : assess n b.point tx.sender op = .ok effect) :
          n.Casts fees b tx (.applied effect.kind) (Recast.ofEffect effect) := by
        have hadmits := admits_of_assess ha
        have hperform := perform_apply hn.conserved hadmits (hroom n)
        refine ⟨?_, henact n ▸ hn.enact hadmits (hroom n)⟩
        rw [happly, ha, ← henact n]
        exact (bind_ok hperform _).trans rfl
      exact ⟨_, _, hby, hcasts hl heffect, hcasts hm (hassess ▸ heffect)⟩

/-- Votes of two senders come to the same in either order. -/
theorem process_comm (fees : FeeSchedule) (b : Block) (hx : x.IsVote) (hy : y.IsVote)
    (hne : x.sender ≠ y.sender) (hl : l.Sound) :
    ∃ o o' l₁ l₂ l', process fees b x l = .ok o l₁ ∧ process fees b y l₁ = .ok o' l' ∧
      process fees b y l = .ok o' l₂ ∧ process fees b x l₂ = .ok o l' ∧ l'.Sound := by
  -- `x` is judged after `y` as before it, and `y` after `x` as before it.
  obtain ⟨_, r, hr, hfirst, _⟩ := exists_casts fees b hy hl hl (.refl _ l)
  obtain ⟨o, q, hq, hxl, hxr⟩ :=
    exists_casts fees b hx hl hfirst.sound (SeenAlike.of_recast hr hne l)
  obtain ⟨o', r', hr', hyl, hyq⟩ :=
    exists_casts fees b hy hl hxl.sound (SeenAlike.of_recast hq hne.symm l)
  refine ⟨o, o', _, _, _, hxl.runs, hyq.runs, hyl.runs, ?_, hyq.sound⟩
  have hsame : r.apply l = r'.apply l := by
    have hruns := hfirst.runs.symm.trans hyl.runs
    injection hruns
  rw [← hsame, hxr.runs, hsame, hq.comm hr' hne]

theorem mapM_process_placed (fees : FeeSchedule) (b : Block) {places : List UInt32}
    (h : places.length = xs.length) :
    (Tx.placed xs places).mapM (process fees b : Tx → Step Ledger TxOutcome) =
      xs.mapM (process fees b) := by
  have hsplit : (Tx.placed xs places).mapM (process fees b : Tx → Step Ledger TxOutcome) =
      ((xs.zip places).map Prod.fst).mapM (process fees b) := by
    unfold Tx.placed
    rw [List.mapM_map, List.mapM_map]
    rfl
  rw [hsplit, List.map_fst_zip (Nat.le_of_eq h.symm)]

theorem mapM_process_votes (fees : FeeSchedule) (b : Block) (hvotes : ∀ tx ∈ xs, tx.IsVote)
    (hl : l.Sound) : ∃ outcomes l', xs.mapM (process fees b) l = .ok outcomes l' ∧ l'.Sound := by
  induction xs generalizing l with
  | nil => exact ⟨[], l, rfl, hl⟩
  | cons x xs ih =>
    obtain ⟨outcome, r, _, hx, _⟩ :=
      exists_casts fees b (hvotes x List.mem_cons_self) hl hl (.refl _ l)
    obtain ⟨outcomes, l', hxs, hsound⟩ :=
      ih (fun y hy => hvotes y (List.mem_cons_of_mem x hy)) hx.sound
    exact ⟨outcome :: outcomes, l', mapM_cons_ok hx.runs hxs, hsound⟩

/-- Votes of different senders come to the same in any order. -/
theorem mapM_process_perm (fees : FeeSchedule) (b : Block) (hperm : xs.Perm ys)
    (hvotes : SeparateVotes xs) (hl : l.Sound) :
    ∃ os os' l', xs.mapM (process fees b) l = .ok os l' ∧ ys.mapM (process fees b) l = .ok os' l' ∧
      ((ys.map Tx.sender).zip os').Perm ((xs.map Tx.sender).zip os) := by
  induction hperm generalizing l with
  | nil => exact ⟨[], [], l, rfl, rfl, .refl _⟩
  | cons x _ ih =>
    obtain ⟨o, r, _, hx, _⟩ :=
      exists_casts fees b (hvotes.votes x List.mem_cons_self) hl hl (.refl _ l)
    obtain ⟨os, os', l', hos, hos', hsame⟩ := ih hvotes.tail hx.sound
    exact ⟨o :: os, o :: os', l', mapM_cons_ok hx.runs hos, mapM_cons_ok hx.runs hos',
      hsame.cons (x.sender, o)⟩
  | swap x y rest =>
    have hne : y.sender ≠ x.sender := by
      have hmem := (List.nodup_cons.mp hvotes.senders).1
      exact fun h => hmem (h ▸ List.mem_cons_self)
    obtain ⟨o, o', l₁, l₂, l', hy, hyx, hx, hxy, hsound⟩ := process_comm fees b
      (hvotes.votes y List.mem_cons_self) (hvotes.tail.votes x List.mem_cons_self) hne hl
    obtain ⟨os, l'', hos, _⟩ := mapM_process_votes fees b hvotes.tail.tail.votes hsound
    exact ⟨o :: o' :: os, o' :: o :: os, l'', mapM_cons_ok hy (mapM_cons_ok hyx hos),
      mapM_cons_ok hx (mapM_cons_ok hxy hos), .swap _ _ _⟩
  | trans hxy _ ih ih' =>
    obtain ⟨os, os', l', hxs, hys, hsame⟩ := ih hvotes hl
    obtain ⟨qs, qs', l'', hys', hzs, hsame'⟩ := ih' (hvotes.perm hxy) hl
    rw [hys] at hys'
    cases hys'
    exact ⟨os, qs', l', hxs, hzs, hsame'.trans hsame⟩

end Ledger

namespace Chain

variable {b : Block} {txs : List Tx} {a : Applicant}

/-- The results of a block in two orders: it is refused before anything is done, or each time all of
its transactions have outcomes, which are the same for the same senders, and the rest of the report
is the same. -/
inductive SameVerdicts (a : Applicant) (b b' : Block) :
    Except ChainFault BlockReport → Except ChainFault BlockReport → Prop where
  | refused {fault : ChainFault} (h : check a b = .error fault) :
    SameVerdicts a b b' (.error fault) (.error fault)
  | reported {r r' : BlockReport} (outcomes : r.outcomes.map Prod.fst = b.txs.map Tx.index)
    (outcomes' : r'.outcomes.map Prod.fst = b'.txs.map Tx.index)
    (verdicts : (b'.verdicts r').Perm (b.verdicts r))
    (rest : r' = { r with outcomes := r'.outcomes }) : SameVerdicts a b b' (.ok r) (.ok r')

/-- What a block comes to that is above the cursor and whose transactions can be processed one after
another. -/
theorem apply_of_processed {fees : FeeSchedule} {coins : Coins} {l mid l' : Ledger}
    {settled : List (BillId × Settlement)} {outcomes : List TxOutcome}
    (hcheck : check a b = .ok ()) (hnext : entersBlock l.cursor b = true)
    (henter : enter b coins l.cursor l = .ok settled mid)
    (hrun : b.txs.mapM (process fees b) mid = .ok outcomes l') :
    apply fees a b coins l =
      ⟨.ok ⟨b.height, (b.txs.map Tx.index).zip outcomes, settled, false⟩, ⟨some b.height, false⟩,
        l'.atCursor ((b.txs.map Tx.index).foldl (fun _ i => some ⟨b.height, indexAfter i⟩)
          mid.cursor)⟩ := by
  have htxs := Ledger.mapM_applyOrPass (not_covered_of_enters hnext) mid.cursor hrun
  have hbody : applyChecked fees b coins l = _ :=
    (Ledger.applyChecked_eq (not_lt_of_enters hnext)).trans (Ledger.applyBody_ok henter htxs)
  unfold apply
  rw [hcheck]
  dsimp only
  rw [hbody]
  rfl

theorem apply_reordered {l : Ledger} (h : l.Sound) (hnext : entersBlock l.cursor b = true)
    (hvotes : SeparateVotes b.txs) (hperm : txs.Perm b.txs) (fees : FeeSchedule) (a : Applicant)
    (coins : Coins) :
    let r := apply fees a b coins l
    let r' := apply fees a (b.reordered txs) coins l
    r'.store = r.store ∧ r'.applicant = r.applicant ∧
      SameVerdicts a b (b.reordered txs) r.result r'.result := by
  intro r r'
  have hplaces : (b.txs.map Tx.index).length = txs.length := by
    rw [List.length_map, hperm.length_eq]
  have hindices : (b.reordered txs).txs.map Tx.index = b.txs.map Tx.index :=
    Tx.map_index_placed hplaces
  have hsenders : (b.reordered txs).txs.map Tx.sender = txs.map Tx.sender :=
    Tx.map_sender_placed hplaces
  have hchecks : check a (b.reordered txs) = check a b :=
    check_carrying a (misplaced?_congr none hindices)
  cases hcheck : check a b with
  | error fault =>
    have hr : r = ⟨.error fault, a, l⟩ := by
      unfold r apply
      rw [hcheck]
    have hr' : r' = ⟨.error fault, a, l⟩ := by
      unfold r' apply
      rw [hchecks, hcheck]
    rw [hr, hr']
    exact ⟨rfl, rfl, .refused hcheck⟩
  | ok _ =>
    obtain ⟨settled, _, henter⟩ := h.scheduled.enter_apply b coins l.cursor
    have hsound := h.entered b coins l.cursor
    obtain ⟨os, os', l', hos, hos', hsame⟩ :=
      Ledger.mapM_process_perm fees b hperm.symm hvotes hsound
    have hlength : (b.txs.map Tx.index).length = os.length := by
      rw [List.length_map, length_of_mapM hos]
    have hlength' : (b.txs.map Tx.index).length = os'.length := by
      rw [hplaces, length_of_mapM hos']
    have hrun : (b.reordered txs).txs.mapM (process fees (b.reordered txs))
        (l.entered b coins l.cursor) = .ok os' l' :=
      (congrFun (Ledger.mapM_process_placed fees b hplaces) _).trans hos'
    have hr : r = _ := apply_of_processed hcheck hnext henter hos
    have hr' : r' = _ := apply_of_processed (hchecks.trans hcheck) hnext henter hrun
    rw [hr, hr', hindices]
    refine ⟨rfl, rfl, .reported (List.map_fst_zip (Nat.le_of_eq hlength))
      ((List.map_fst_zip (Nat.le_of_eq hlength')).trans hindices.symm) ?_ rfl⟩
    unfold Block.verdicts
    rw [hsenders, List.map_snd_zip (Nat.le_of_eq hlength.symm),
      List.map_snd_zip (Nat.le_of_eq hlength'.symm)]
    exact hsame

/-- A block of votes from different senders comes to the same in whichever order its transactions
stand: it is refused as a whole, or every sender is given the same outcome, the same bills are
settled and the same records are left. -/
theorem votes_in_any_order {k : Backend} {s : k.Store} (hs : Kept k.opened s)
    (hnext : ∀ c, LedgerReads.cursor? s = .ok (some c) → c.height < b.height)
    (hvotes : SeparateVotes b.txs) (hperm : txs.Perm b.txs) (fees : FeeSchedule) (a : Applicant)
    (coins : Coins) :
    let r := apply fees a b coins s
    let r' := apply fees a (b.reordered txs) coins s
    r'.store = r.store ∧ r'.applicant = r.applicant ∧
      SameVerdicts a b (b.reordered txs) r.result r'.result := by
  intro r r'
  obtain ⟨l, hl, hholds⟩ := exists_coherent hs
  have henters : entersBlock l.cursor b = true := by
    have hcursor : LedgerReads.cursor? s = .ok l.cursor := hholds.alike.cursor?.symm
    cases hc : l.cursor with
    | none => rfl
    | some c => exact decide_eq_true (hnext c (hcursor.trans (congrArg _ hc)))
  obtain ⟨hstore, happlicant, hresult⟩ :=
    apply_reordered hl.sound henters hvotes hperm fees a coins
  obtain ⟨hr, ha, hst⟩ := hholds.apply fees a b coins
  obtain ⟨hr', ha', hst'⟩ := hholds.apply fees a (b.reordered txs) coins
  refine ⟨?_, ?_, ?_⟩
  · rw [hstore] at hst'
    exact hst'.unique hst
  · rw [ha, ha', happlicant]
  · rw [hr, hr']
    exact hresult

def registrations : Block :=
  let payload (op : Operation) : Bytes := (Payload.bytesOf op).1 :: (Payload.bytesOf op).2
  ⟨1, 10, [⟨0, payload (.registerDelegate "Ada"), ⟨.fill 20 1⟩, 0⟩,
    ⟨1, payload (.registerCommittee "Roads" ""), ⟨.fill 20 2⟩, 0⟩]⟩

def poll : Block :=
  let payload (op : Operation) : Bytes := (Payload.bytesOf op).1 :: (Payload.bytesOf op).2
  ⟨2, 20, [⟨0, payload (.voteDelegates (.add ∅ ⟨.fill 20 1⟩)), ⟨.fill 20 3⟩, 0⟩,
    ⟨1, payload (.voteCommittee ⟨.fill 20 2⟩), ⟨.fill 20 4⟩, 5⟩,
    ⟨4, payload (.revokeDelegates (.add ∅ ⟨.fill 20 1⟩)), ⟨.fill 20 5⟩, 0⟩]⟩

theorem votes_in_any_order_in_poll :
    let s := (apply (.flat 0) fresh registrations ∅ (∅ : Ledger)).store
    let r := apply (.flat 0) fresh poll ∅ s
    let r' := apply (.flat 0) fresh (poll.reordered poll.txs.reverse) ∅ s
    (∃ report, r.result = .ok report ∧ report.outcomes = [(0, .applied .voteDelegates),
        (1, .applied .voteCommittee), (4, .refused (.delegateNotVoted ⟨.fill 20 1⟩))]) ∧
      r'.store = r.store ∧ r'.applicant = r.applicant ∧
      SameVerdicts fresh poll (poll.reordered poll.txs.reverse) r.result r'.result := by
  intro s r r'
  have hs : Kept (∅ : Ledger) s := .block (.flat 0) fresh registrations ∅ .start
  have hcursor : s.cursor = some ⟨1, 2⟩ := by decide +kernel
  have hnext : ∀ c, LedgerReads.cursor? s = .ok (some c) → c.height < poll.height := by
    intro c hc
    have heq : some c = some ⟨1, 2⟩ := (Except.ok.inj hc).symm.trans hcursor
    cases heq
    decide
  have hvotes : SeparateVotes poll.txs := ⟨by decide +kernel, by decide⟩
  refine ⟨⟨_, rfl, by decide +kernel⟩, ?_⟩
  exact votes_in_any_order (k := .memory) hs hnext hvotes (List.reverse_perm _) (.flat 0) fresh ∅

end Chain

end CivicLedger
