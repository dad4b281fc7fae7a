import CivicLedger.Proofs.Database.Backends
import CivicLedger.Proofs.Node.Record

/-!
# Starting again after a stop

A node that follows a stream from an empty ledger commits its store several times for each block.
Whichever of these stores is all that is left of it, with or without the recorded balances, a node
opened over it that follows the same stream from its beginning comes to the same end.
-/

namespace CivicLedger

open Chain Program

/-- Updates as a feed delivers them: at rising heights, with the transactions of each counted. -/
structure Stream (us : List Update) : Prop where
  heights : us.Pairwise fun u v => u.block.height < v.block.height
  blocks : ∀ u ∈ us, u.block.InOrder

theorem Stream.tail {u : Update} {us : List Update} (h : Stream (u :: us)) : Stream us :=
  ⟨(List.pairwise_cons.mp h.heights).2, fun v hv => h.blocks v (List.mem_cons_of_mem u hv)⟩

theorem Stream.left {us vs : List Update} (h : Stream (us ++ vs)) : Stream us :=
  ⟨(List.pairwise_append.mp h.heights).1, fun v hv => h.blocks v (List.mem_append_left vs hv)⟩

theorem Stream.lt {us : List Update} {u : Update} {vs : List Update} (h : Stream (us ++ u :: vs)) :
    ∀ v ∈ us, v.block.height < u.block.height := by
  intro v hv
  exact (List.pairwise_append.mp h.heights).2.2 v hv u List.mem_cons_self

namespace Coins

def ofUpdates (us : List Update) : Coins := us.foldl (fun c u => Coins.update c u.changes) ∅

theorem ofUpdates_concat (us : List Update) (u : Update) :
    ofUpdates (us ++ [u]) = (ofUpdates us).update u.changes := by
  unfold ofUpdates
  rw [List.foldl_append]
  rfl

theorem noZero_ofUpdates (us : List Update) : (ofUpdates us).NoZero := by
  have hfold (c : Coins) (hc : c.NoZero) :
      NoZero (us.foldl (fun c u => Coins.update c u.changes) c) := by
    induction us generalizing c with
    | nil => exact hc
    | cons u rest ih => exact ih _ (hc.update u.changes)
  exact hfold ∅ fun _ => nofun

end Coins

namespace Ledger

variable {l : Ledger} {b : Block}

/-- Nothing remains to be done of a block: it is below the cursor, or the cursor is at its end. -/
def Past (l : Ledger) (b : Block) : Prop :=
  (∃ c, l.cursor = some c ∧ b.height < c.height) ∨ Stands b b.txs.length l

theorem Past.withCoins (h : l.Past b) (coins : Coins) (point : Option ChainPoint) :
    (l.withCoins coins point).Past b := by
  rcases h with hbelow | hstands
  · exact .inl hbelow
  · exact .inr (hstands.withCoins coins point)

theorem Past.noted (h : l.Past b) (u : Update) : (l.noted u).Past b := by
  unfold Ledger.noted
  split
  · exact h
  · exact h.withCoins _ _

/-- A block of which nothing remains to be done changes nothing when it comes again. -/
theorem Past.applyChecked_eq_ok (h : l.Past b) (hb : b.InOrder) (fees : FeeSchedule)
    (coins : Coins) : ∃ report, applyChecked fees b coins l = .ok report l := by
  rcases h with ⟨c, hc, hlt⟩ | hstands
  · exact ⟨_, applyChecked_of_lt hc hlt⟩
  · have hsplit : b.txs = b.txs ++ [] := (List.append_nil _).symm
    have hnone : Taken fees b [] l l := .nil l
    obtain ⟨report, hrun, _⟩ := hstands.applyChecked_again hb hsplit hnone coins
    exact ⟨report, hrun⟩

end Ledger

namespace Node

section

variable {σ : Type} [LedgerEdits σ]

def start (s : σ) : Node σ := ⟨s, fresh, .empty, ⟨0, 0⟩, .zero⟩

theorem follow_cons (fees : FeeSchedule) (u : Update) (us : List Update) (n : Node σ) :
    follow fees (u :: us) n =
      match (deliver fees n u).result with
      | .ok _ => follow fees us (deliver fees n u).node
      | .error fault =>
        if isDropped fault then follow fees us (deliver fees n u).node
        else ⟨some fault, (deliver fees n u).node⟩ := rfl

/-- Nodes that each update leaves in a relation, with one result for both, are in it wherever they
follow the same updates. -/
theorem follow_related {τ : Type} [LedgerEdits τ] {related : Node σ → Node τ → Prop}
    {fees : FeeSchedule} {n : Node σ} {m : Node τ}
    (hdeliver : ∀ {n m}, related n m → ∀ u,
      (deliver fees m u).result = (deliver fees n u).result ∧
        related (deliver fees n u).node (deliver fees m u).node)
    (h : related n m) (us : List Update) :
    (follow fees us m).fault = (follow fees us n).fault ∧
      related (follow fees us n).node (follow fees us m).node := by
  induction us generalizing n m with
  | nil => exact ⟨rfl, h⟩
  | cons u rest ih =>
    obtain ⟨hresult, hnode⟩ := hdeliver h u
    rw [follow_cons, follow_cons, hresult]
    cases (deliver fees n u).result with
    | ok report => exact ih hnode
    | error fault =>
      simp only
      split
      · exact ih hnode
      · exact ⟨rfl, hnode⟩

/-- What is followed without a fault can be followed further. -/
theorem follow_append {fees : FeeSchedule} {n : Node σ} {us : List Update}
    (h : (follow fees us n).fault = none) (vs : List Update) :
    follow fees (us ++ vs) n = follow fees vs (follow fees us n).node := by
  induction us generalizing n with
  | nil => rfl
  | cons u rest ih =>
    rw [List.cons_append, follow_cons, follow_cons]
    rw [follow_cons] at h
    cases hresult : (deliver fees n u).result with
    | ok report =>
      rw [hresult] at h
      exact ih h
    | error fault =>
      rw [hresult] at h
      simp only at h ⊢
      by_cases hdropped : isDropped fault = true
      · rw [if_pos hdropped] at h ⊢
        rw [if_pos hdropped]
        exact ih h
      · rw [if_neg hdropped] at h
        cases h

/-- The stores that a node commits as it follows updates from a new store: after the balances of an
update are recorded, after its block is entered, and after each of its transactions. -/
inductive Committed (fees : FeeSchedule) (us : List Update) (s₀ : σ) : σ → Prop where
  | recorded {before rest : List Update} {u : Update} {n m : Node σ}
    (hsplit : us = before ++ u :: rest) (hrun : follow fees before (start s₀) = ⟨none, n⟩)
    (hrecord : n.recordBalances u = .ok m) : Committed fees us s₀ m.store
  | entered {before rest : List Update} {u : Update} {n m : Node σ} {cursor : Option Cursor}
    {settled : List (BillId × Settlement)} {s : σ}
    (hsplit : us = before ++ u :: rest) (hrun : follow fees before (start s₀) = ⟨none, n⟩)
    (hrecord : n.recordBalances u = .ok m) (hcursor : LedgerReads.cursor? m.store = .ok cursor)
    (henter : enter u.block m.sheet.coins cursor m.store = .ok settled s) :
    Committed fees us s₀ s
  | applied {before rest : List Update} {u : Update} {n m : Node σ} {cursor : Option Cursor}
    {settled : List (BillId × Settlement)} {done others : List Tx}
    {outcomes : List (UInt32 × TxOutcome)} {s s' : σ}
    (hsplit : us = before ++ u :: rest) (hrun : follow fees before (start s₀) = ⟨none, n⟩)
    (hrecord : n.recordBalances u = .ok m) (hcursor : LedgerReads.cursor? m.store = .ok cursor)
    (henter : enter u.block m.sheet.coins cursor m.store = .ok settled s)
    (htxs : u.block.txs = done ++ others)
    (happly : done.mapM (applyOrPass fees u.block cursor) s = .ok outcomes s') :
    Committed fees us s₀ s'

/-- A node opened over the store that follows the updates comes to the store, the balances and the
tip of a run, without a fault. -/
def Rejoins (fees : FeeSchedule) (us : List Update) (run : Followed σ) (s : σ) : Prop :=
  ∃ n, restore s = .ok n ∧ (follow fees us n).fault = none ∧
    (follow fees us n).node.store = run.node.store ∧
    (follow fees us n).node.sheet = run.node.sheet ∧
    (follow fees us n).node.tip = run.node.tip

end

variable {fees : FeeSchedule} {n m : Node Ledger} {u : Update} {l : Ledger}

theorem deliver_ok {report : BlockReport} (hcheck : check n.applicant u.block = .ok ())
    (hrecord : n.recordBalances u = .ok m) (hsame : m.applicant = n.applicant)
    (happly : applyChecked fees u.block m.sheet.coins m.store = .ok report l) :
    deliver fees n u = ⟨.ok report,
      ({ m with store := l, applicant := ⟨some u.block.height, false⟩ } : Node Ledger).settleReport
        u report, Notice.ofReport report⟩ := by
  unfold deliver Chain.apply
  rw [hcheck]
  simp only [hrecord, hsame, hcheck, happly]
  rfl

theorem deliver_error {fault : ChainFault} (hcheck : check n.applicant u.block = .ok ())
    (hrecord : n.recordBalances u = .ok m) (hsame : m.applicant = n.applicant)
    (happly : applyChecked fees u.block m.sheet.coins m.store = .error fault l) :
    (deliver fees n u).result = .error (.chain fault) ∧ (deliver fees n u).node.store = l := by
  unfold deliver Chain.apply
  rw [hcheck]
  simp only [hrecord, hsame, hcheck, happly, and_self]

/-- The two nodes differ at most in what they have counted. -/
structure Same (n m : Node Ledger) : Prop where
  store : m.store = n.store
  applicant : m.applicant = n.applicant
  sheet : m.sheet = n.sheet
  tip : m.tip = n.tip

theorem Same.deliver (h : Same n m) (fees : FeeSchedule) (u : Update) :
    (deliver fees m u).result = (deliver fees n u).result ∧
      Same (deliver fees n u).node (deliver fees m u).node := by
  obtain ⟨store, applicant, sheet, tip, metrics⟩ := n
  obtain ⟨store', applicant', sheet', tip', metrics'⟩ := m
  obtain ⟨rfl, rfl, rfl, rfl⟩ := h
  unfold Node.deliver
  simp only [recordBalances_eq]
  cases check applicant' u.block with
  | error fault => exact ⟨rfl, rfl, rfl, rfl, rfl⟩
  | ok _ =>
    by_cases hlater : store'.isLater u = true
    · simp only [if_pos hlater]
      split <;> exact ⟨rfl, rfl, rfl, rfl, rfl⟩
    · simp only [if_neg hlater]
      split <;> exact ⟨rfl, rfl, rfl, rfl, rfl⟩

theorem Same.follow (h : Same n m) (fees : FeeSchedule) (us : List Update) :
    (follow fees us m).fault = (follow fees us n).fault ∧
      Same (follow fees us n).node (follow fees us m).node :=
  follow_related (fun h u => h.deliver fees u) h us

structure Ran (seen : List Update) (n : Node Ledger) : Prop where
  sound : n.store.Sound
  going : n.applicant.halted = false
  sheet : n.sheet.coins = n.store.coinBalances
  coins : n.store.coinBalances = Coins.ofUpdates seen
  last : ∀ height, n.applicant.last = some height → ∃ v ∈ seen, v.block.height = height
  cursor : ∀ c, n.store.cursor = some c → ∃ v ∈ seen, v.block.height = c.height
  synced : ∀ p, n.store.synced = some p → ∃ v ∈ seen, v.block.height = p.height
  past : ∀ v ∈ seen, n.store.Past v.block

structure Took (fees : FeeSchedule) (n : Node Ledger) (u : Update) (m : Node Ledger) : Prop where
  taken : Taken fees u.block u.block.txs (n.store.underway u) m.store
  applicant : m.applicant = ⟨some u.block.height, false⟩
  sheet : m.sheet = ⟨u.block.height, (n.store.recorded u).coinBalances⟩
  tip : m.tip = u.block.point

variable {seen : List Update}

theorem ran_start : Ran [] (start ∅) where
  sound := Ledger.sound_empty
  going := rfl
  sheet := rfl
  coins := rfl
  last _ h := nomatch h
  cursor _ h := nomatch h
  synced _ h := nomatch h
  past _ h := nomatch h

theorem Ran.above (h : Ran seen n) (hlater : ∀ v ∈ seen, v.block.height < u.block.height) :
    n.store.Above u where
  cursor := by
    intro c hc
    obtain ⟨v, hv, hheight⟩ := h.cursor c hc
    rw [← hheight]
    exact hlater v hv
  synced := by
    intro p hp
    obtain ⟨v, hv, hheight⟩ := h.synced p hp
    rw [← hheight]
    exact hlater v hv

theorem Ran.check_eq_ok (h : Ran seen n) (hb : u.block.InOrder)
    (hlater : ∀ v ∈ seen, v.block.height < u.block.height) :
    check n.applicant u.block = .ok () := by
  refine Chain.check_eq_ok hb h.going ?_
  intro last hlast
  obtain ⟨v, hv, hheight⟩ := h.last last hlast
  have hlt := hlater v hv
  rwa [hheight] at hlt

theorem Ran.recordBalances (h : Ran seen n)
    (hlater : ∀ v ∈ seen, v.block.height < u.block.height) :
    n.recordBalances u = .ok { n with
      store := n.store.recorded u
      sheet := ⟨u.block.height, (n.store.recorded u).coinBalances⟩ } :=
  recordBalances_of_not_later h.sheet (h.above hlater).not_isLater

/-- An update above all others is taken, or the numbers of tokens are used up on the way. -/
theorem Ran.deliver_cases (h : Ran seen n) (hb : u.block.InOrder)
    (hlater : ∀ v ∈ seen, v.block.height < u.block.height) (fees : FeeSchedule) :
    (∃ report, (deliver fees n u).result = .ok report ∧
      applyChecked fees u.block (n.store.recorded u).coinBalances (n.store.recorded u) =
        .ok report (deliver fees n u).node.store ∧ report.skipped = false ∧
      Took fees n u (deliver fees n u).node) ∨
    ∃ fault, (deliver fees n u).result = .error fault ∧ isDropped fault = false ∧
      (deliver fees n u).node.store.IsFull := by
  have hcheck := h.check_eq_ok hb hlater
  have hrecord := h.recordBalances hlater
  have hsound : (n.store.recorded u).Sound := h.sound.withCoins _ _
  rcases hsound.applyChecked_next fees (n.store.recorded u).coinBalances
    (h.above hlater).enters with
    ⟨report, l, hrun, hskipped, htaken⟩ | ⟨fault, l, hrun, hfatal, hfull⟩
  · have hdeliver := deliver_ok hcheck hrecord rfl hrun
    rw [hdeliver]
    refine .inl ⟨report, rfl, hrun, hskipped, htaken, rfl, rfl, ?_⟩
    unfold settleReport
    rw [if_neg (by rw [hskipped]; exact Bool.false_ne_true)]
  · obtain ⟨hresult, hstore⟩ := deliver_error hcheck hrecord rfl hrun
    rw [hstore]
    exact .inr ⟨_, hresult, congrArg not hfatal, hfull⟩

/-- Within the block of an update the balances of the update are recorded and the cursor stands
behind the transactions that have been applied. -/
theorem Ran.stands_of_taken {done others : List Tx} (h : Ran seen n) (hb : u.block.InOrder)
    (hlater : ∀ v ∈ seen, v.block.height < u.block.height) (htxs : u.block.txs = done ++ others)
    (hdone : Taken fees u.block done (n.store.underway u) l) :
    Ledger.Stands u.block done.length l ∧ l.coinBalances = (n.store.recorded u).coinBalances ∧
      l.synced = some u.block.point := by
  have hsound : (n.store.recorded u).Sound := h.sound.withCoins _ _
  have hentered := hsound.stands_entered u.block (n.store.recorded u).coinBalances
    (h.above hlater).enters
  have hsplit : u.block.txs = [] ++ done ++ others := htxs
  obtain ⟨hstands, hcoins⟩ := hentered.taken hb hsplit hdone
  obtain ⟨hbalances, hsynced⟩ := Prod.mk.inj (hcoins.trans (Ledger.coinPart_entered _ _ _ _))
  exact ⟨hstands, hbalances, hsynced⟩

theorem Ran.coins_recorded (h : Ran seen n) (u : Update) :
    (n.store.recorded u).coinBalances = Coins.ofUpdates (seen ++ [u]) := by
  rw [Coins.ofUpdates_concat, ← h.coins]
  rfl

theorem Took.ran (ht : Took fees n u m) (h : Ran seen n) (hb : u.block.InOrder)
    (hlater : ∀ v ∈ seen, v.block.height < u.block.height) : Ran (seen ++ [u]) m := by
  have hall : u.block.txs = u.block.txs ++ [] := (List.append_nil _).symm
  obtain ⟨hstands, hbalances, hsynced⟩ := h.stands_of_taken hb hlater hall ht.taken
  have hu : u ∈ seen ++ [u] := List.mem_append_right seen List.mem_cons_self
  refine {
    sound := hstands.sound
    going := ?_
    sheet := ?_
    coins := ?_
    last := ?_
    cursor := ?_
    synced := ?_
    past := ?_ }
  · rw [ht.applicant]
  · rw [ht.sheet]
    exact hbalances.symm
  · rw [hbalances, h.coins_recorded]
  · intro height hlast
    rw [ht.applicant] at hlast
    cases hlast
    exact ⟨u, hu, rfl⟩
  · intro c hc
    rw [hstands.cursor] at hc
    cases hc
    exact ⟨u, hu, rfl⟩
  · intro p hp
    rw [hsynced] at hp
    cases hp
    exact ⟨u, hu, rfl⟩
  · intro v hv
    rcases List.mem_append.mp hv with hv | hv
    · exact .inl ⟨_, hstands.cursor, hlater v hv⟩
    · rcases List.mem_singleton.mp hv with rfl
      exact .inr hstands

/-- Followed updates run to their end, or up to where the numbers of tokens are used up. -/
theorem Ran.follow {us : List Update} (h : Ran seen n) (hus : Stream (seen ++ us))
    (fees : FeeSchedule) :
    (follow fees us n).fault = none ∧ Ran (seen ++ us) (follow fees us n).node ∨
      (follow fees us n).fault ≠ none ∧ (follow fees us n).node.store.IsFull := by
  induction us generalizing seen n with
  | nil =>
    rw [List.append_nil]
    exact .inl ⟨rfl, h⟩
  | cons u rest ih =>
    have hb : u.block.InOrder := hus.blocks u (List.mem_append_right seen List.mem_cons_self)
    rw [follow_cons]
    rcases h.deliver_cases hb hus.lt fees with
      ⟨report, hresult, _, _, htook⟩ | ⟨fault, hresult, hfatal, hfull⟩
    · have hnext := htook.ran h hb hus.lt
      have hsplit : seen ++ u :: rest = (seen ++ [u]) ++ rest := by simp
      rw [hsplit] at hus ⊢
      simp only [hresult]
      exact ih hnext hus
    · simp only [hresult, hfatal]
      exact .inr ⟨nofun, hfull⟩

/-- A store from which the rest of an update can be done: it has the balances of the update, nothing
remains of the updates before it, and applying its block leads to where it led without a stop. -/
structure Resumable (fees : FeeSchedule) (before : List Update) (u : Update) (l l' : Ledger) :
    Prop where
  coins : l.coinBalances = Coins.ofUpdates (before ++ [u])
  synced : l.synced = some u.block.point
  past : ∀ v ∈ before, l.Past v.block
  rest : ∃ report, applyChecked fees u.block l.coinBalances l = .ok report l' ∧
    report.skipped = false

/-- Within the block of an update the rest of its transactions remains to be done. -/
theorem Took.resumable {done others : List Tx} (ht : Took fees n u m) (h : Ran seen n)
    (hb : u.block.InOrder) (hlater : ∀ v ∈ seen, v.block.height < u.block.height)
    (htxs : u.block.txs = done ++ others)
    (hdone : Taken fees u.block done (n.store.underway u) l) :
    Resumable fees seen u l m.store := by
  obtain ⟨hstands, hbalances, hsynced⟩ := h.stands_of_taken hb hlater htxs hdone
  have htaken := ht.taken
  rw [htxs] at htaken
  obtain ⟨mid, hmid, hothers⟩ := htaken.split
  rw [← hdone.unique hmid] at hothers
  refine ⟨?_, hsynced, ?_, hstands.applyChecked_again hb htxs hothers _⟩
  · rw [hbalances, h.coins_recorded]
  · intro v hv
    exact .inl ⟨_, hstands.cursor, hlater v hv⟩

/-- In a run that does not use up the numbers of tokens each update is taken in its turn. -/
theorem took_of_split {us before rest : List Update} (hus : Stream us)
    (hfew : ¬ Ledger.IsFull (follow fees us (start ∅)).node.store)
    (hsplit : us = before ++ u :: rest)
    (hrun : follow fees before (start ∅) = ⟨none, n⟩) :
    Ran before n ∧ follow fees us (start ∅) = follow fees rest (deliver fees n u).node ∧
      Took fees n u (deliver fees n u).node ∧
      ∃ report, applyChecked fees u.block (n.store.recorded u).coinBalances (n.store.recorded u) =
        .ok report (deliver fees n u).node.store ∧ report.skipped = false := by
  subst hsplit
  have hran : Ran before n := by
    rcases ran_start.follow hus.left fees with ⟨_, hran⟩ | ⟨hfault, _⟩
    · rw [hrun] at hran
      exact hran
    · rw [hrun] at hfault
      exact absurd rfl hfault
  have hb : u.block.InOrder := hus.blocks u (List.mem_append_right before List.mem_cons_self)
  have hnone : (follow fees before (start (∅ : Ledger))).fault = none := by rw [hrun]
  have hfollow := follow_append hnone (u :: rest)
  rw [hrun, follow_cons] at hfollow
  rcases hran.deliver_cases hb hus.lt fees with
    ⟨report, hresult, happly, hskipped, htook⟩ | ⟨fault, hresult, hfatal, hfull⟩
  · rw [hresult] at hfollow
    exact ⟨hran, hfollow, htook, report, happly, hskipped⟩
  · rw [hresult] at hfollow
    simp only [hfatal] at hfollow
    rw [hfollow] at hfew
    exact absurd hfull hfew

/-- Entering the block of an update leads to one ledger only. -/
theorem Ran.eq_underway {settled : List (BillId × Settlement)} (h : Ran seen n)
    (henter : enter u.block (n.store.recorded u).coinBalances n.store.cursor (n.store.recorded u) =
      .ok settled l) :
    l = n.store.underway u := by
  have hsound : (n.store.recorded u).Sound := h.sound.withCoins _ _
  obtain ⟨_, _, hok⟩ := hsound.scheduled.enter_apply u.block (n.store.recorded u).coinBalances
    n.store.cursor
  rw [henter] at hok
  cases hok
  rfl

/-- Whatever a run commits can be resumed, and the run goes on from the same update. -/
theorem Committed.resumable {us : List Update} (h : Committed fees us ∅ l) (hus : Stream us)
    (hfew : ¬ Ledger.IsFull (follow fees us (start ∅)).node.store) :
    ∃ before u rest n, us = before ++ u :: rest ∧
      follow fees us (start ∅) = follow fees rest (deliver fees n u).node ∧
      Took fees n u (deliver fees n u).node ∧
      (deliver fees n u).node.sheet.coins = Coins.ofUpdates (before ++ [u]) ∧
      Resumable fees before u l (deliver fees n u).node.store := by
  have hinOrder {before rest : List Update} {u : Update} (hsplit : us = before ++ u :: rest) :
      u.block.InOrder := by
    refine hus.blocks u ?_
    rw [hsplit]
    exact List.mem_append_right before List.mem_cons_self
  have hlater {before rest : List Update} {u : Update} (hsplit : us = before ++ u :: rest) :
      ∀ v ∈ before, v.block.height < u.block.height := (hsplit ▸ hus).lt
  have hsheet {before : List Update} {u : Update} {n : Node Ledger} (hran : Ran before n)
      (htook : Took fees n u (deliver fees n u).node) :
      (deliver fees n u).node.sheet.coins = Coins.ofUpdates (before ++ [u]) := by
    rw [htook.sheet, hran.coins_recorded]
  cases h with
  | @recorded before rest u n m hsplit hrun hrecord =>
    obtain ⟨hran, hfollow, htook, hrest⟩ := took_of_split hus hfew hsplit hrun
    rw [hran.recordBalances (hlater hsplit)] at hrecord
    cases hrecord
    have hcoins := hsheet hran htook
    refine ⟨before, u, rest, n, hsplit, hfollow, htook, hcoins, ?_, rfl, ?_, hrest⟩
    · rw [← hcoins, htook.sheet]
    · intro v hv
      exact (hran.past v hv).withCoins _ _
  | @entered before rest u n m cursor settled l hsplit hrun hrecord hcursor henter =>
    obtain ⟨hran, hfollow, htook, _⟩ := took_of_split hus hfew hsplit hrun
    cases hcursor
    rw [hran.recordBalances (hlater hsplit)] at hrecord
    cases hrecord
    have hentered := hran.eq_underway henter
    subst hentered
    exact ⟨before, u, rest, n, hsplit, hfollow, htook, hsheet hran htook,
      htook.resumable hran (hinOrder hsplit) (hlater hsplit) (List.nil_append _).symm (.nil _)⟩
  | @applied before rest u n m cursor settled done others outcomes l l' hsplit hrun hrecord hcursor
      henter htxs happly =>
    obtain ⟨hran, hfollow, htook, _⟩ := took_of_split hus hfew hsplit hrun
    cases hcursor
    rw [hran.recordBalances (hlater hsplit)] at hrecord
    cases hrecord
    have hentered := hran.eq_underway henter
    subst hentered
    have hdone := (exists_mapM_iff fun tx _ =>
      not_covered_of_enters (hran.above (hlater hsplit)).enters tx).mp ⟨outcomes, happly⟩
    exact ⟨before, u, rest, n, hsplit, hfollow, htook, hsheet hran htook,
      htook.resumable hran (hinOrder hsplit) (hlater hsplit) htxs hdone⟩

/-- Updates of which nothing remains to be done change only the balances. -/
theorem follow_past {us : List Update} (hus : Stream us)
    (hpast : ∀ v ∈ us, n.store.Past v.block) (hgoing : n.applicant.halted = false)
    (hlast : ∀ height, n.applicant.last = some height → ∀ v ∈ us, height < v.block.height)
    (hsheet : n.sheet.coins = n.store.coinBalances) (fees : FeeSchedule) :
    ∃ m, follow fees us n = ⟨none, m⟩ ∧ m.store = us.foldl Ledger.noted n.store ∧
      m.sheet.coins = m.store.coinBalances ∧ m.applicant.halted = false ∧
      ∀ height, m.applicant.last = some height →
        n.applicant.last = some height ∨ ∃ v ∈ us, v.block.height = height := by
  induction us generalizing n with
  | nil => exact ⟨n, rfl, rfl, hsheet, hgoing, fun _ hlast => .inl hlast⟩
  | cons u rest ih =>
    obtain ⟨hu, _⟩ := List.pairwise_cons.mp hus.heights
    have hb : u.block.InOrder := hus.blocks u List.mem_cons_self
    have hcheck : check n.applicant u.block = .ok () :=
      check_eq_ok hb hgoing fun height h => hlast height h u List.mem_cons_self
    obtain ⟨k, hrecord, hstore, hcoins, happlicant⟩ := exists_recordBalances hsheet u
    have hpastU := (hpast u List.mem_cons_self).noted u
    rw [← hstore] at hpastU
    obtain ⟨report, happly⟩ := hpastU.applyChecked_eq_ok hb fees k.sheet.coins
    have hdeliver := deliver_ok hcheck hrecord happlicant happly
    obtain ⟨m, hfollow, hstore', hsheet', hgoing', hlast'⟩ := ih (n := (deliver fees n u).node)
      hus.tail (by
        intro v hv
        rw [hdeliver]
        change k.store.Past v.block
        rw [hstore]
        exact (hpast v (List.mem_cons_of_mem u hv)).noted u) (by rw [hdeliver]; rfl) (by
        intro height h v hv
        rw [hdeliver] at h
        cases h
        exact hu v hv) (by rw [hdeliver]; exact hcoins)
    refine ⟨m, ?_, ?_, hsheet', hgoing', ?_⟩
    · rw [follow_cons]
      rw [hdeliver] at hfollow ⊢
      exact hfollow
    · rw [hstore', hdeliver, List.foldl_cons, ← hstore]
      rfl
    · intro height h
      right
      rcases hlast' height h with h | ⟨v, hv, hheight⟩
      · rw [hdeliver] at h
        cases h
        exact ⟨u, List.mem_cons_self, rfl⟩
      · exact ⟨v, List.mem_cons_of_mem u hv, hheight⟩

/-- A node opened over a store works with the balances that the store has recorded. -/
theorem restore_eq_ok (hzero : Coins.NoZero l.coinBalances)
    (hnone : l.synced = none → l.coinBalances = ∅) :
    ∃ n, restore l = .ok n ∧ n.store = l ∧ n.applicant = fresh ∧
      n.sheet.coins = l.coinBalances := by
  have hsynced : LedgerReads.synced? l = .ok l.synced := rfl
  have hcoins : LedgerReads.coinBalances l = .ok l.coinBalances.entries := rfl
  have hcursor : LedgerReads.cursor? l = .ok l.cursor := rfl
  unfold restore
  rw [hsynced, hcoins, hcursor]
  cases hs : l.synced with
  | some point => exact ⟨_, rfl, rfl, rfl, congrArg Sheet.coins (Sheet.ofRecorded_entries hzero _)⟩
  | none =>
    have hempty := hnone hs
    cases l.cursor with
    | some c => exact ⟨_, rfl, rfl, rfl, hempty.symm⟩
    | none => exact ⟨_, rfl, rfl, rfl, hempty.symm⟩

section Resumed

variable {before : List Update} {l' : Ledger}

/-- Offering the updates before it again to a store that can be resumed, and then its own, gives
that store back, whether or not it has lost its balances. -/
theorem Resumable.recorded_foldl_noted (h : Resumable fees before u l l')
    (hbefore : before.Pairwise fun u v => u.block.height < v.block.height)
    (hlater : ∀ v ∈ before, v.block.height < u.block.height) {l₁ : Ledger}
    (hl₁ : l₁ = l ∨ l₁ = l.withCoins ∅ none) :
    (before.foldl Ledger.noted l₁).recorded u = l ∧
      (before.foldl Ledger.noted l₁).isLater u = false := by
  have hfinal : l.withCoins ((Coins.ofUpdates before).update u.changes)
      (some u.block.point) = l := by
    rw [← Coins.ofUpdates_concat, ← h.coins, ← h.synced]
    rfl
  rcases hl₁ with rfl | rfl
  -- With its balances the store is at the update already and takes none from before it; without
  -- them it collects them all again.
  · have hkept : before.foldl Ledger.noted l₁ = l₁ := by
      refine Ledger.foldl_noted_of_later fun v hv => ?_
      unfold Ledger.isLater
      rw [h.synced]
      exact decide_eq_true (hlater v hv)
    rw [hkept]
    constructor
    · rw [← hfinal]
      exact Ledger.recorded_recorded (l₁.withCoins (Coins.ofUpdates before) none) u
    · unfold Ledger.isLater
      rw [h.synced]
      exact decide_eq_false (UInt64.lt_irrefl _)
  · obtain ⟨q, hfold, hq⟩ := l.foldl_noted ∅ none hbefore nofun
    rw [hfold]
    constructor
    · exact hfinal
    · unfold Ledger.isLater
      cases q with
      | none => rfl
      | some p =>
        rcases hq p rfl with hnone | ⟨v, hv, hheight⟩
        · cases hnone
        · have hlt := hlater v hv
          rw [hheight] at hlt
          exact decide_eq_false (UInt64.not_lt.mpr (UInt64.le_of_lt hlt))

/-- A store that can be resumed can be opened, whether or not it has lost its balances. -/
theorem Resumable.restore (h : Resumable fees before u l l') {l₁ : Ledger}
    (hl₁ : l₁ = l ∨ l₁ = l.withCoins ∅ none) :
    ∃ n, Node.restore l₁ = .ok n ∧ n.store = l₁ ∧ n.applicant = fresh ∧
      n.sheet.coins = l₁.coinBalances := by
  rcases hl₁ with rfl | rfl
  · refine restore_eq_ok ?_ ?_
    · rw [h.coins]
      exact Coins.noZero_ofUpdates _
    · intro hnone
      rw [h.synced] at hnone
      cases hnone
  · exact restore_eq_ok (fun _ => nofun) fun _ => rfl

/-- A node opened over a store that can be resumed comes, with the update that was under way, to
where the run without a stop came. -/
theorem Resumable.follow (h : Resumable fees before u l m.store) (hus : Stream (before ++ [u]))
    (ht : Took fees n u m) (hsheet : m.sheet.coins = Coins.ofUpdates (before ++ [u]))
    {l₁ : Ledger} (hl₁ : l₁ = l ∨ l₁ = l.withCoins ∅ none) :
    ∃ n₁ m₁, Node.restore l₁ = .ok n₁ ∧ Node.follow fees (before ++ [u]) n₁ = ⟨none, m₁⟩ ∧
      Same m m₁ := by
  have hb : u.block.InOrder := hus.blocks u (List.mem_append_right before List.mem_cons_self)
  obtain ⟨n₁, hrestore, hstore, hfresh, hcoins⟩ := h.restore hl₁
  have hpast : ∀ v ∈ before, n₁.store.Past v.block := by
    intro v hv
    rw [hstore]
    rcases hl₁ with rfl | rfl
    · exact h.past v hv
    · exact (h.past v hv).withCoins _ _
  have hnever : ∀ height, n₁.applicant.last ≠ some height := by
    intro height
    rw [hfresh]
    exact nofun
  -- Up to the update only balances change; offering the update itself restores the store.
  obtain ⟨k, hfollow, hk, hksheet, hgoing, hlast⟩ := follow_past hus.left hpast
    (by rw [hfresh]; rfl) (fun height hlast => absurd hlast (hnever height))
    (by rw [hcoins, hstore]) fees
  obtain ⟨hrecorded, hnot⟩ := h.recorded_foldl_noted hus.left.heights hus.lt hl₁
  rw [hstore] at hk
  rw [← hk] at hrecorded hnot
  have hcheck : check k.applicant u.block = .ok () := by
    refine check_eq_ok hb hgoing fun height hheight => ?_
    rcases hlast height hheight with hnone | ⟨v, hv, rfl⟩
    · exact absurd hnone (hnever height)
    · exact hus.lt v hv
  have hrecord : k.recordBalances u = .ok { k with
      store := l
      sheet := ⟨u.block.height, l.coinBalances⟩ } := by
    have hnotLater : ¬ k.store.isLater u = true := by
      rw [hnot]
      exact Bool.false_ne_true
    rw [recordBalances_of_not_later hksheet hnotLater, hrecorded]
  obtain ⟨report, happly, hskipped⟩ := h.rest
  have hdeliver := deliver_ok hcheck hrecord rfl happly
  refine ⟨n₁, (deliver fees k u).node, hrestore, ?_, ?_⟩
  · rw [follow_append (by rw [hfollow]), hfollow, follow_cons, hdeliver]
    rfl
  · rw [hdeliver]
    refine ⟨rfl, ht.applicant.symm, ?_, ?_⟩
    · change ⟨u.block.height, l.coinBalances⟩ = m.sheet
      rw [ht.sheet] at hsheet ⊢
      rw [h.coins, ← hsheet]
    · rw [ht.tip]
      exact if_neg (by rw [hskipped]; exact Bool.false_ne_true)

end Resumed

theorem rejoins_ledger {fees : FeeSchedule} {us : List Update} {l l₁ : Ledger} (hus : Stream us)
    (hfew : HasFewTokens (follow fees us (start (∅ : Ledger))).node.store)
    (hstop : Committed fees us ∅ l) (hl₁ : l₁ = l ∨ l₁ = l.withoutCoins) :
    (follow fees us (start (∅ : Ledger))).fault = none ∧
      Rejoins fees us (follow fees us (start ∅)) l₁ := by
  have hnotFull : ¬ Ledger.IsFull (follow fees us (start ∅)).node.store :=
    Nat.not_le.mpr (Ledger.hasFewTokens_iff.mp hfew)
  have hgoes : (follow fees us (start (∅ : Ledger))).fault = none := by
    rcases ran_start.follow hus fees with ⟨hnone, _⟩ | ⟨_, hfull⟩
    · exact hnone
    · exact absurd hfull hnotFull
  obtain ⟨before, u, rest, n, hsplit, hfollow, htook, hsheet, hresumable⟩ :=
    hstop.resumable hus hnotFull
  have hjoin : us = (before ++ [u]) ++ rest := by
    rw [hsplit, List.append_assoc]
    rfl
  have hfirst : Stream (before ++ [u]) := (hjoin ▸ hus).left
  obtain ⟨n₁, m₁, hrestore, hrun, hsame⟩ := hresumable.follow hfirst htook hsheet hl₁
  have hagain : follow fees us n₁ = follow fees rest m₁ := by
    rw [hjoin, follow_append (by rw [hrun]), hrun]
  obtain ⟨hfault, hend⟩ := hsame.follow fees rest
  rw [← hfollow] at hfault hend
  rw [← hagain] at hfault hend
  exact ⟨hgoes, n₁, hrestore, hfault.trans hgoes, hend.store, hend.sheet, hend.tip⟩

end Node

end CivicLedger
