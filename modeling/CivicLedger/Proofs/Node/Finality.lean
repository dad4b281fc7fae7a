import Mathlib.Data.List.Chain
import CivicLedger.Proofs.Node.Standings

/-!
# Finished bills stay as they are

A node commits its store after recording the balances of an update, after entering its block and
after each of its transactions. Once a bill is answered as finished over one of these stores, it is
answered in the same way over every later one, in whatever order the times of the blocks come.
-/

namespace CivicLedger

open Chain Program

namespace Chain

section

variable {σ : Type} [LedgerEdits σ]

def txCommits (fees : FeeSchedule) (b : Block) (cursor : Option Cursor) : List Tx → σ → List σ
  | [], _ => []
  | tx :: rest, s =>
    if isCovered cursor b tx then txCommits fees b cursor rest s
    else match applyTx fees b tx s with
      | .ok _ s' => s' :: txCommits fees b cursor rest s'
      | .error _ _ => []

def bodyCommits (fees : FeeSchedule) (b : Block) (coins : Coins) (cursor : Option Cursor) (s : σ) :
    List σ :=
  match enter b coins cursor s with
  | .ok _ s' => s' :: txCommits fees b cursor b.txs s'
  | .error _ _ => []

def blockCommits (fees : FeeSchedule) (b : Block) (coins : Coins) (s : σ) : List σ :=
  match LedgerReads.cursor? s with
  | .error _ => []
  | .ok cursor =>
    if cursor.any fun c => b.height < c.height then [] else bodyCommits fees b coins cursor s

section

variable {fees : FeeSchedule} {b : Block} {cursor : Option Cursor} {tx : Tx} {rest : List Tx}
  {s t : σ}

theorem txCommits_of_covered (h : isCovered cursor b tx = true) :
    txCommits fees b cursor (tx :: rest) s = txCommits fees b cursor rest s :=
  if_pos h

theorem txCommits_of_ok {outcome : TxOutcome} (h : isCovered cursor b tx = false)
    (happly : applyTx fees b tx s = .ok outcome t) :
    txCommits fees b cursor (tx :: rest) s = t :: txCommits fees b cursor rest t := by
  rw [txCommits, h, if_neg Bool.false_ne_true, happly]

theorem txCommits_of_error {fault : ChainFault} (h : isCovered cursor b tx = false)
    (happly : applyTx fees b tx s = .error fault t) :
    txCommits fees b cursor (tx :: rest) s = [] := by
  rw [txCommits, h, if_neg Bool.false_ne_true, happly]

end

theorem last_txCommits (fees : FeeSchedule) (b : Block) (cursor : Option Cursor) (txs : List Tx)
    (s : σ) : (s :: txCommits fees b cursor txs s).getLast? =
      some (left (txs.mapM (applyOrPass fees b cursor) s)) := by
  induction txs generalizing s with
  | nil => rfl
  | cons tx rest ih =>
    rw [List.mapM_cons]
    cases hcovered : isCovered cursor b tx with
    | true =>
      rw [txCommits_of_covered hcovered, ih, bind_ok (applyOrPass_of_covered fees s hcovered),
        left_bind_pure]
    | false =>
      rw [applyOrPass_of_not_covered fees hcovered]
      cases happly : applyTx fees b tx s with
      | ok outcome t =>
        have hfirst : (applyTx fees b tx >>= fun outcome => pure (tx.index, outcome)) s =
            .ok (tx.index, outcome) t := (bind_ok happly _).trans rfl
        rw [txCommits_of_ok hcovered happly, List.getLast?_cons_cons, ih, bind_ok hfirst,
          left_bind_pure]
      | error fault t =>
        rw [txCommits_of_error hcovered happly, bind_error (bind_error happly _),
          applyTx_of_error happly]
        rfl

theorem last_bodyCommits (fees : FeeSchedule) (b : Block) (coins : Coins) (cursor : Option Cursor)
    (s : σ) : (s :: bodyCommits fees b coins cursor s).getLast? =
      some (left (applyBody fees b coins cursor s)) := by
  unfold bodyCommits applyBody
  cases henter : enter b coins cursor s with
  | ok settled t => rw [bind_ok henter, left_bind_pure, List.getLast?_cons_cons, last_txCommits]
  | error fault t =>
    have hsame : t = s := atomically_of_error henter
    rw [bind_error henter, hsame]
    rfl

theorem last_blockCommits (fees : FeeSchedule) (b : Block) (coins : Coins) (s : σ) :
    (s :: blockCommits fees b coins s).getLast? = some (left (applyChecked fees b coins s)) := by
  unfold blockCommits applyChecked
  cases hread : LedgerReads.cursor? s with
  | error fault =>
    rw [bind_error (read_of_error hread)]
    rfl
  | ok cursor =>
    rw [bind_ok (read_of_ok hread)]
    have hbody := last_bodyCommits fees b coins cursor s
    cases cursor with
    | none => exact hbody
    | some c =>
      by_cases hbehind : b.height < c.height
      · simp [hbehind, left]
      · simpa [hbehind] using hbody

end

end Chain

namespace Node

section

variable {σ : Type} [LedgerEdits σ]

/-- The stores that an update commits, the one with its balances first. Where balances of a later
block are recorded, that is the store as it was. -/
def commits (fees : FeeSchedule) (n : Node σ) (u : Update) : List σ :=
  match check n.applicant u.block with
  | .error _ => []
  | .ok () =>
    match n.recordBalances u with
    | .error _ => []
    | .ok m => m.store :: blockCommits fees u.block m.sheet.coins m.store

theorem commits_of_check_error {n : Node σ} {u : Update} {fault : ChainFault} (fees : FeeSchedule)
    (hcheck : check n.applicant u.block = .error fault) : commits fees n u = [] := by
  unfold commits
  rw [hcheck]

theorem commits_of_recorded {n m : Node σ} {u : Update} (fees : FeeSchedule)
    (hcheck : check n.applicant u.block = .ok ()) (hrecord : n.recordBalances u = .ok m) :
    commits fees n u = m.store :: blockCommits fees u.block m.sheet.coins m.store := by
  unfold commits
  rw [hcheck]
  simp only [hrecord]

/-- The stores that a node commits as it takes updates, whether they are applied or refused. -/
def journal (fees : FeeSchedule) : List Update → Node σ → List σ
  | [], _ => []
  | u :: rest, n => commits fees n u ++ journal fees rest (deliver fees n u).node

end

variable {n m : Node Ledger} {fees : FeeSchedule} {u : Update} {coins : Coins} {l l' : Ledger}

theorem exists_recorded (n : Node Ledger) (u : Update) :
    ∃ m, n.recordBalances u = .ok m ∧ m.applicant = n.applicant := by
  rw [recordBalances_eq]
  split
  · exact ⟨n, rfl, rfl⟩
  · exact ⟨_, rfl, rfl⟩

/-- The last of the stores is the one that the node is left with. -/
theorem last_commits (fees : FeeSchedule) (n : Node Ledger) (u : Update) :
    (n.store :: commits fees n u).getLast? = some (deliver fees n u).node.store := by
  cases hcheck : check n.applicant u.block with
  | error fault =>
    rw [commits_of_check_error fees hcheck, deliver_of_check_error fees hcheck]
    rfl
  | ok _ =>
    obtain ⟨m, hrecord, happlicant⟩ := exists_recorded n u
    have hcheck' : check m.applicant u.block = .ok () := by rw [happlicant, hcheck]
    rw [commits_of_recorded fees hcheck hrecord, (deliver_of_recorded fees hcheck hrecord).1,
      List.getLast?_cons_cons, last_blockCommits, store_of_check hcheck']

structure Within (u : Update) (coins : Coins) (l : Ledger) : Prop where
  sound : l.Sound
  coins : l.coinPart = (coins, some u.block.point)
  cursor : l.IsAt u.block
  quiet : l.billsDue u.block.time = []

structure Even (n : Node Ledger) : Prop where
  sound : n.store.Sound
  sheet : n.sheet.coins = n.store.coinBalances
  quiet : n.store.billsDue n.store.vantage.time = []

theorem even_start : Even (start ∅) where
  sound := Ledger.sound_empty
  sheet := rfl
  quiet := rfl

theorem Within.synced (h : Within u coins l) : l.synced = some u.block.point :=
  (Prod.mk.inj h.coins).2

theorem Within.vantage (h : Within u coins l) : l.vantage = u.block.point := by
  unfold Ledger.vantage
  rw [h.synced]

/-- A transaction leaves a ledger in its block and takes nothing back. -/
theorem Within.applied (h : Within u coins l) (htime : u.block.time < Word.max) {tx : Tx}
    {outcome : TxOutcome} (happly : applyTx fees u.block tx l = .ok outcome l') :
    Within u coins l' ∧ l.Upholds l' := by
  have hquiet : l.billsDue l.vantage.time = [] := by
    rw [h.vantage]
    exact h.quiet
  have hfollows := ((Ledger.stable_follows l).applied h.sound (.refl l) happly).2
  refine ⟨?_, h.sound.scheduled.upholds_of_quiet hquiet hfollows⟩
  obtain ⟨mid, hmid, rfl⟩ := h.sound.processed_of_applyTx happly
  exact ⟨(hmid.sound h.sound).withCursor _, hmid.coinPart.trans h.coins, rfl,
    hmid.quiet htime h.quiet⟩

theorem Within.txCommits (h : Within u coins l) (htime : u.block.time < Word.max)
    (fees : FeeSchedule) (cursor : Option Cursor) (txs : List Tx) :
    (l :: txCommits fees u.block cursor txs l).IsChain Ledger.Upholds ∧
      ∀ m ∈ l :: txCommits fees u.block cursor txs l, Within u coins m := by
  induction txs generalizing l with
  | nil => exact ⟨.singleton l, List.forall_mem_singleton.mpr h⟩
  | cons tx rest ih =>
    cases hcovered : isCovered cursor u.block tx with
    | true =>
      rw [txCommits_of_covered hcovered]
      exact ih h
    | false =>
      cases happly : applyTx fees u.block tx l with
      | error fault l' =>
        rw [txCommits_of_error hcovered happly]
        exact ⟨.singleton l, List.forall_mem_singleton.mpr h⟩
      | ok outcome l' =>
        obtain ⟨hnext, hupholds⟩ := h.applied htime happly
        obtain ⟨hchain, hall⟩ := ih hnext
        rw [txCommits_of_ok hcovered happly]
        exact ⟨List.isChain_cons_cons.mpr ⟨hupholds, hchain⟩, List.forall_mem_cons.mpr ⟨h, hall⟩⟩

theorem Within.above (h : Within u coins l) {v : Update} (hlt : u.block.height < v.block.height) :
    l.Above v where
  cursor := by
    intro c hc
    have hat := h.cursor
    unfold Ledger.IsAt at hat
    rw [hc] at hat
    rw [Option.some.inj hat]
    exact hlt
  synced := by
    intro p hp
    rw [h.synced] at hp
    cases hp
    exact hlt

theorem not_behind_of_above (h : l.Above u) :
    (l.cursor.any fun c => u.block.height < c.height) = false := by
  cases hc : l.cursor with
  | none => rfl
  | some c => exact decide_eq_false (UInt64.not_lt.mpr (UInt64.le_of_lt (h.cursor c hc)))

/-- Once the block is entered, nothing is due any more. -/
theorem within_underway (h : l.Above u) (hs : l.Sound) :
    Within u (l.recorded u).coinBalances (l.underway u) := by
  have hrecorded : (l.recorded u).Sound := hs.withCoins _ _
  have hstands := hrecorded.stands_entered u.block (l.recorded u).coinBalances h.enters
  refine ⟨hstands.sound, Ledger.coinPart_entered _ _ _ _, ?_, hstands.quiet⟩
  have hcursor : (l.underway u).cursor = some ⟨u.block.height, 0⟩ := hstands.cursor
  unfold Ledger.IsAt
  rw [hcursor]
  rfl

section

variable (h : Even n) (habove : n.store.Above u)

include h habove

/-- An update that passes the check commits its balances, its settlements and its transactions. -/
theorem Even.commits_eq (hcheck : check n.applicant u.block = .ok ()) :
    commits fees n u = n.store.recorded u :: n.store.underway u ::
      txCommits fees u.block n.store.cursor u.block.txs (n.store.underway u) := by
  have hrecorded : (n.store.recorded u).Sound := h.sound.withCoins _ _
  obtain ⟨settled, _, henter⟩ := hrecorded.scheduled.enter_apply u.block
    (n.store.recorded u).coinBalances n.store.cursor
  have hread : LedgerReads.cursor? (n.store.recorded u) = .ok n.store.cursor := rfl
  rw [commits_of_recorded fees hcheck (recordBalances_of_not_later h.sheet habove.not_isLater)]
  simp only [blockCommits, hread, not_behind_of_above habove, bodyCommits, henter]
  rfl

theorem Even.commits_chain (htime : u.block.time < Word.max) :
    (n.store :: commits fees n u).IsChain Ledger.Upholds := by
  cases hcheck : check n.applicant u.block with
  | error fault =>
    rw [commits_of_check_error fees hcheck]
    exact .singleton _
  | ok _ =>
    have hfollows : n.store.Follows (n.store.recorded u) :=
      ⟨fun _ _ hb => hb, fun _ _ hs => hs, fun _ _ _ => rfl⟩
    have hrecorded := h.sound.scheduled.upholds_of_quiet h.quiet hfollows
    have hsound : (n.store.recorded u).Sound := h.sound.withCoins _ _
    have hentered := hsound.upholds_entered (b := u.block) rfl n.store.cursor
    have htxs := (within_underway habove h.sound).txCommits htime fees n.store.cursor u.block.txs
    rw [h.commits_eq habove hcheck]
    exact .cons_cons hrecorded (.cons_cons hentered htxs.1)

/-- An update changes nothing, or leaves the node in its block with the coins of its ledger. -/
theorem Even.deliver_cases (htime : u.block.time < Word.max) (fees : FeeSchedule) :
    (deliver fees n u).node = n ∨
      Within u (deliver fees n u).node.sheet.coins (deliver fees n u).node.store := by
  cases hcheck : check n.applicant u.block with
  | error fault =>
    left
    rw [deliver_of_check_error fees hcheck]
  | ok _ =>
    right
    have hlast := last_commits fees n u
    rw [h.commits_eq habove hcheck, List.getLast?_cons_cons, List.getLast?_cons_cons] at hlast
    have htxs := (within_underway habove h.sound).txCommits htime fees n.store.cursor u.block.txs
    have hrecord := recordBalances_of_not_later h.sheet habove.not_isLater
    rw [(deliver_of_recorded fees hcheck hrecord).2]
    exact htxs.2 _ (List.mem_of_getLast? hlast)

theorem Even.delivered (htime : u.block.time < Word.max) (fees : FeeSchedule) :
    Even (deliver fees n u).node := by
  rcases h.deliver_cases habove htime fees with hsame | hwithin
  · rwa [hsame]
  · refine ⟨hwithin.sound, (Prod.mk.inj hwithin.coins).1.symm, ?_⟩
    rw [hwithin.vantage]
    exact hwithin.quiet

end

instance : Trans Ledger.Upholds Ledger.Upholds Ledger.Upholds := ⟨Ledger.Upholds.trans⟩

/-- Each store that a node commits upholds what was reported over the one before it. -/
theorem Even.journal_chain {us : List Update} (h : Even n) (habove : ∀ u ∈ us, n.store.Above u)
    (hheights : us.Pairwise fun u v => u.block.height < v.block.height)
    (htimes : ∀ u ∈ us, u.block.time < Word.max) (fees : FeeSchedule) :
    (n.store :: journal fees us n).IsChain Ledger.Upholds := by
  induction us generalizing n with
  | nil => exact .singleton _
  | cons u rest ih =>
    obtain ⟨hlater, hrest⟩ := List.pairwise_cons.mp hheights
    have hu := habove u List.mem_cons_self
    have htime := htimes u List.mem_cons_self
    have habove' : ∀ v ∈ rest, (deliver fees n u).node.store.Above v := by
      intro v hv
      rcases h.deliver_cases hu htime fees with hsame | hwithin
      · rw [hsame]
        exact habove v (List.mem_cons_of_mem u hv)
      · exact hwithin.above (hlater v hv)
    have hnext := ih (h.delivered hu htime fees) habove' hrest
      fun v hv => htimes v (List.mem_cons_of_mem u hv)
    obtain ⟨hfirst, hothers⟩ := List.isChain_cons.mp hnext
    refine List.isChain_append.mpr ⟨h.commits_chain hu htime, hothers, ?_⟩
    intro x hx y hy
    rw [last_commits] at hx
    cases hx
    exact hfirst y hy

section

variable {m : Node Database} {db : Database}

/-- Blocks committed to a database give the same answers as on the ledger that it holds. -/
theorem answers_txCommits (hm : Database.Mirrors l db) (fees : FeeSchedule) (b : Block)
    (cursor : Option Cursor) (txs : List Tx) :
    (txCommits fees b cursor txs db).map billAnswer =
      (txCommits fees b cursor txs l).map billAnswer := by
  induction txs generalizing l db with
  | nil => rfl
  | cons tx rest ih =>
    cases hcovered : isCovered cursor b tx with
    | true =>
      rw [txCommits_of_covered hcovered, txCommits_of_covered hcovered]
      exact ih hm
    | false =>
      have hagree := Database.agree_applyTx fees b tx
      cases happly : applyTx fees b tx l with
      | ok outcome l' =>
        obtain ⟨db', happly', hm'⟩ := hagree.exists_database hm happly
        rw [txCommits_of_ok hcovered happly, txCommits_of_ok hcovered happly', List.map_cons,
          List.map_cons, hm'.alike.billAnswer, ih hm']
      | error fault l' =>
        obtain ⟨db', happly'⟩ := hagree.exists_error hm happly
        rw [txCommits_of_error hcovered happly, txCommits_of_error hcovered happly']
        rfl

theorem answers_bodyCommits (hm : Database.Mirrors l db) (fees : FeeSchedule) (b : Block)
    (coins : Coins) (cursor : Option Cursor) :
    (bodyCommits fees b coins cursor db).map billAnswer =
      (bodyCommits fees b coins cursor l).map billAnswer := by
  have hagree := Database.agree_enter b coins cursor
  unfold bodyCommits
  cases henter : enter b coins cursor l with
  | ok settled l' =>
    obtain ⟨db', henter', hm'⟩ := hagree.exists_database hm henter
    rw [henter']
    simp only [List.map_cons, hm'.alike.billAnswer, answers_txCommits hm']
  | error fault l' =>
    obtain ⟨db', henter'⟩ := hagree.exists_error hm henter
    rw [henter']
    rfl

theorem Shadows.answers_commits (h : Shadows n m) (fees : FeeSchedule) (u : Update) :
    (commits fees m u).map billAnswer = (commits fees n u).map billAnswer := by
  obtain ⟨n', m', hn, hm, hrecorded⟩ := h.recordBalances u
  have hread : LedgerReads.cursor? m'.store = .ok n'.store.cursor := by
    rw [← hrecorded.store.alike.cursor?]
    rfl
  have hread' : LedgerReads.cursor? n'.store = .ok n'.store.cursor := rfl
  have hbody := answers_bodyCommits hrecorded.store fees u.block n'.sheet.coins n'.store.cursor
  unfold commits
  rw [h.applicant]
  cases check n.applicant u.block with
  | error fault => rfl
  | ok _ =>
    simp only [hn, hm, blockCommits, hread, hread', List.map_cons, hrecorded.sheet,
      hrecorded.store.alike.billAnswer]
    split
    · rfl
    · rw [hbody]

theorem Shadows.answers_journal (h : Shadows n m) (fees : FeeSchedule) (us : List Update) :
    (journal fees us m).map billAnswer = (journal fees us n).map billAnswer := by
  induction us generalizing n m with
  | nil => rfl
  | cons u rest ih =>
    unfold journal
    rw [List.map_append, List.map_append, h.answers_commits fees u, ih (h.deliver fees u).2]

end

/-- Whatever updates a node takes from a new store at rising heights, as long as their times are
below the largest word: what is answered of a finished bill over any store that it commits is
answered over every store that it commits later. -/
theorem outcomes_kept {k : Backend} (fees : FeeSchedule) {us : List Update}
    (hheights : us.Pairwise fun u v => u.block.height < v.block.height)
    (htimes : ∀ u ∈ us, u.block.time < Word.max) :
    (k.opened :: journal fees us (start k.opened)).Pairwise fun s t =>
      KeepsOutcomes (billAnswer s) (billAnswer t) := by
  have habove : ∀ u ∈ us, Ledger.Above ∅ u := fun u _ => ⟨fun _ => nofun, fun _ => nofun⟩
  have hchain := even_start.journal_chain habove hheights htimes fees
  have hledger := hchain.pairwise.imp fun h => h.keepsOutcomes
  cases k with
  | memory => exact hledger
  | tables =>
    have hshadows := shadows_start Database.mirrors_opened
    have hanswers : (Database.opened :: journal fees us (start Database.opened)).map billAnswer =
        ((∅ : Ledger) :: journal fees us (start ∅)).map billAnswer := by
      rw [List.map_cons, List.map_cons, hshadows.answers_journal fees us,
        Database.mirrors_opened.alike.billAnswer]
    rw [← List.pairwise_map] at hledger ⊢
    exact (congrArg (List.Pairwise KeepsOutcomes) hanswers).mpr hledger

/-- A council submits a bill and votes on it, gains coins before the bill is settled, and loses them
in a block from an earlier time. -/
theorem outcomes_kept_after_vote :
    let council : KeyId := ⟨.fill 20 1⟩
    let payload (op : Operation) : Bytes := (Payload.bytesOf op).1 :: (Payload.bytesOf op).2
    let u : Update := ⟨⟨1, 0, [⟨0, payload (.registerCommittee "council" ""), council, 0⟩,
      ⟨1, payload (.submitBill ⟨"Budget", "", "", 1, ["yes", "no"]⟩), council, 0⟩,
      ⟨2, payload (.voteBill (.ofTitle "Budget") 1), council, 0⟩]⟩, [(council, 5)]⟩
    let v : Update := ⟨⟨2, 172800, []⟩, [(council, 7)]⟩
    let w : Update := ⟨⟨3, 43200, []⟩, [(council, 0)]⟩
    let stores := (∅ : Ledger) :: journal (.flat 0) [u, v, w] (start ∅)
    let reported (l : Ledger) : Option (Option Bool × Option UInt64) :=
      (billAnswer l [.text (BillId.ofTitle "Budget").text]).toOption.map fun j =>
        ((j.state "finished").flag?, (j.state "total_vote").word?)
    (stores.drop 5).map reported = [some (some false, some 5), some (some true, some 7),
        some (some true, some 7), some (some true, some 7), some (some true, some 7)] ∧
      stores.Pairwise fun s t => KeepsOutcomes (billAnswer s) (billAnswer t) := by
  intro council payload u v w stores reported
  have hheights : [u, v, w].Pairwise fun u v => u.block.height < v.block.height := by decide
  have htimes : ∀ x ∈ [u, v, w], x.block.time < Word.max := by decide
  exact ⟨by decide +kernel, outcomes_kept (k := .memory) (.flat 0) hheights htimes⟩

end Node

end CivicLedger
