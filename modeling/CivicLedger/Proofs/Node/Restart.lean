import CivicLedger.Proofs.Database.Chains
import CivicLedger.Proofs.Node.Recovery

/-!
# Starting again on either store

A node over a database does what a node over the ledger that the database holds does. A node that
was stopped therefore comes to the same end as one that was not, wherever it keeps its ledger.
-/

namespace CivicLedger.Node

open Chain Program

structure Shadows (n : Node Ledger) (m : Node Database) : Prop where
  store : Database.Mirrors n.store m.store
  applicant : m.applicant = n.applicant
  sheet : m.sheet = n.sheet
  tip : m.tip = n.tip
  metrics : m.metrics = n.metrics

variable {n n' : Node Ledger} {m m' : Node Database} {fees : FeeSchedule} {us : List Update}
  {l : Ledger} {db : Database}

theorem agree_recordEdits (u : Update) :
    Database.Agree Database.Mirrors (recordEdits u) (recordEdits u) :=
  (Database.Agree.forM fun e _ => Database.agree_setCoinBalance e.1 e.2).bind fun _ =>
    Database.agree_setSynced u.block.point

theorem Shadows.recordBalances (h : Shadows n m) (u : Update) :
    ∃ n' m', n.recordBalances u = .ok n' ∧ m.recordBalances u = .ok m' ∧ Shadows n' m' := by
  have hread : readStore (LedgerReads.synced? m.store) = .ok n.store.synced := by
    rw [← h.store.alike.synced?]
    rfl
  obtain ⟨db, hedits, hm⟩ :=
    (agree_recordEdits u).exists_database h.store (Ledger.recordEdits_apply u n.store)
  have hrecord : m.recordBalances u =
      if n.store.isLater u then .ok m
      else .ok { m with store := db, sheet := m.sheet.update u.block.height u.changes } := by
    unfold Node.recordBalances
    rw [hread, hedits]
    rfl
  rw [recordBalances_eq, hrecord]
  by_cases hlater : n.store.isLater u = true
  · rw [if_pos hlater, if_pos hlater]
    exact ⟨n, m, rfl, rfl, h⟩
  · rw [if_neg hlater, if_neg hlater]
    have hsheet : m.sheet.update u.block.height u.changes =
        n.sheet.update u.block.height u.changes := by rw [h.sheet]
    exact ⟨_, _, rfl, rfl, hm, h.applicant, hsheet, h.tip, h.metrics⟩

theorem Shadows.deliver (h : Shadows n m) (fees : FeeSchedule) (u : Update) :
    (deliver fees m u).result = (deliver fees n u).result ∧
      Shadows (deliver fees n u).node (deliver fees m u).node := by
  obtain ⟨n', m', hn, hm, hrecorded⟩ := h.recordBalances u
  obtain ⟨hresult, happlicant, hstore⟩ :=
    hrecorded.store.apply fees n'.applicant u.block n'.sheet.coins
  unfold Node.deliver
  rw [h.applicant]
  cases check n.applicant u.block with
  | error fault => exact ⟨rfl, h⟩
  | ok _ =>
    simp only [hn, hm, hrecorded.applicant, hrecorded.sheet]
    rw [← hresult]
    cases (Chain.apply fees n'.applicant u.block n'.sheet.coins n'.store).result with
    | error fault =>
      exact ⟨rfl, hstore, happlicant.symm, rfl, hrecorded.tip, hrecorded.metrics⟩
    | ok report =>
      refine ⟨rfl, hstore, happlicant.symm, rfl, ?_, ?_⟩
      · simp only [settleReport, hrecorded.tip]
      · simp only [settleReport, hrecorded.metrics]

theorem Shadows.follow (h : Shadows n m) (fees : FeeSchedule) (us : List Update) :
    (follow fees us m).fault = (follow fees us n).fault ∧
      Shadows (follow fees us n).node (follow fees us m).node :=
  follow_related (fun h u => h.deliver fees u) h us

theorem shadows_start (h : Database.Mirrors l db) : Shadows (start l) (start db) :=
  ⟨h, rfl, rfl, rfl, rfl⟩

/-- A database opens as the ledger that it holds does. -/
theorem exists_shadows_of_restore (h : Database.Mirrors l db) (hn : restore l = .ok n) :
    ∃ m, restore db = .ok m ∧ Shadows n m := by
  unfold restore at hn ⊢
  rw [← h.alike.synced?, ← h.alike.coinBalances, ← h.alike.cursor?]
  have hsynced : LedgerReads.synced? l = .ok l.synced := rfl
  have hcoins : LedgerReads.coinBalances l = .ok l.coinBalances.entries := rfl
  have hcursor : LedgerReads.cursor? l = .ok l.cursor := rfl
  rw [hsynced, hcoins, hcursor] at hn ⊢
  cases hn
  exact ⟨_, rfl, h, rfl, rfl, rfl, rfl⟩

/-- A run without a fault on a database is one on the ledger that it holds. -/
theorem exists_run_of_mirrors {l₀ : Ledger} {db₀ : Database} (h : Database.Mirrors l₀ db₀)
    (hrun : follow fees us (start db₀) = ⟨none, m⟩) :
    ∃ n, follow fees us (start l₀) = ⟨none, n⟩ ∧ Shadows n m := by
  obtain ⟨hfault, hnode⟩ := (shadows_start h).follow fees us
  rw [hrun] at hfault hnode
  refine ⟨(follow fees us (start l₀)).node, ?_, hnode⟩
  exact congrArg (Followed.mk · (follow fees us (start l₀)).node) hfault.symm

/-- What a node commits to a database, it commits to the ledger that the database holds. -/
theorem exists_committed_of_mirrors {l₀ : Ledger} {db₀ : Database} (h₀ : Database.Mirrors l₀ db₀)
    (h : Committed fees us db₀ db) : ∃ l, Committed fees us l₀ l ∧ Database.Mirrors l db := by
  have hrecorded {n : Node Ledger} {m m' : Node Database} {u : Update} (h : Shadows n m)
      (hm : m.recordBalances u = .ok m') : ∃ n', n.recordBalances u = .ok n' ∧ Shadows n' m' := by
    obtain ⟨n', m'', hn, hm', hshadows⟩ := h.recordBalances u
    rw [hm] at hm'
    cases hm'
    exact ⟨n', hn, hshadows⟩
  have hentered {n : Node Ledger} {m : Node Database} {b : Block} {cursor : Option Cursor}
      {settled : List (BillId × Settlement)} {db : Database} (h : Shadows n m)
      (henter : enter b m.sheet.coins cursor m.store = .ok settled db) :
      ∃ l, enter b n.sheet.coins cursor n.store = .ok settled l ∧ Database.Mirrors l db := by
    rw [h.sheet] at henter
    exact (Database.agree_enter b n.sheet.coins cursor).exists_ledger h.store henter
  cases h with
  | recorded hsplit hrun hrecord =>
    obtain ⟨n, hrun', hn⟩ := exists_run_of_mirrors h₀ hrun
    obtain ⟨n', hrecord', hn'⟩ := hrecorded hn hrecord
    exact ⟨n'.store, .recorded hsplit hrun' hrecord', hn'.store⟩
  | entered hsplit hrun hrecord hcursor henter =>
    obtain ⟨n, hrun', hn⟩ := exists_run_of_mirrors h₀ hrun
    obtain ⟨n', hrecord', hn'⟩ := hrecorded hn hrecord
    rw [← hn'.store.alike.cursor?] at hcursor
    obtain ⟨l, henter', hm⟩ := hentered hn' henter
    exact ⟨l, .entered hsplit hrun' hrecord' hcursor henter', hm⟩
  | @applied _ _ u _ _ cursor _ done _ _ _ _ hsplit hrun hrecord hcursor henter htxs happly =>
    obtain ⟨n, hrun', hn⟩ := exists_run_of_mirrors h₀ hrun
    obtain ⟨n', hrecord', hn'⟩ := hrecorded hn hrecord
    rw [← hn'.store.alike.cursor?] at hcursor
    obtain ⟨l, henter', hm⟩ := hentered hn' henter
    have hagree := Database.agree_mapM_applyOrPass fees u.block cursor done
    obtain ⟨l', happly', hm'⟩ := hagree.exists_ledger hm happly
    exact ⟨l', .applied hsplit hrun' hrecord' hcursor henter' htxs happly', hm'⟩

theorem restore_opened (k : Backend) : restore k.opened = .ok (start k.opened) := by
  cases k <;> rfl

/-- Whatever store the run of a stream is stopped at, with its recorded balances or without, a node
opened over it that follows the stream from its beginning comes to the same store, balances and tip
as the run without a stop, and neither meets a fault. -/
theorem follow_after_stop {k : Backend} {fees : FeeSchedule} {us : List Update} {s s₁ : k.Store}
    (hus : Stream us) (hfew : HasFewTokens (follow fees us (start k.opened)).node.store)
    (hstop : Committed fees us k.opened s) (hs₁ : s₁ = s ∨ s₁ = k.withoutCoins s) :
    (follow fees us (start k.opened)).fault = none ∧
      Rejoins fees us (follow fees us (start k.opened)) s₁ := by
  cases k with
  | memory => exact rejoins_ledger hus hfew hstop hs₁
  | tables =>
    obtain ⟨hfault, hend⟩ := (shadows_start Database.mirrors_opened).follow fees us
    obtain ⟨l, hstop', hm⟩ := exists_committed_of_mirrors Database.mirrors_opened hstop
    obtain ⟨l₁, hl₁, hm₁⟩ : ∃ l₁, (l₁ = l ∨ l₁ = l.withoutCoins) ∧ Database.Mirrors l₁ s₁ := by
      rcases hs₁ with rfl | rfl
      · exact ⟨l, .inl rfl, hm⟩
      · exact ⟨_, .inr rfl, hm.withoutCoins⟩
    have hfew' := hend.store.alike.hasFewTokens.mpr hfew
    obtain ⟨hgoes, n, hrestore, hagain, hstore, hsheet, htip⟩ := rejoins_ledger hus hfew' hstop' hl₁
    obtain ⟨m, hrestore', hshadows⟩ := exists_shadows_of_restore hm₁ hrestore
    obtain ⟨hfault', hend'⟩ := hshadows.follow fees us
    refine ⟨hfault.trans hgoes, m, hrestore', hfault'.trans hagain, ?_, ?_, ?_⟩
    · have hheld := hend'.store
      rw [hstore] at hheld
      exact hheld.unique hend.store
    · exact hend'.sheet.trans (hsheet.trans hend.sheet.symm)
    · exact hend'.tip.trans (htip.trans hend.tip.symm)

/-- A committee puts a bill to the vote and votes on it; two days later two names are registered. -/
def poll : List Update :=
  let sender : KeyId := ⟨.fill 20 1⟩
  let other : KeyId := ⟨.fill 20 2⟩
  let payload (op : Operation) : Bytes := (Payload.bytesOf op).1 :: (Payload.bytesOf op).2
  [⟨⟨1, 0, [⟨0, payload (.registerCommittee "council" ""), sender, 0⟩,
      ⟨1, payload (.submitBill ⟨"Budget", "", "", 1, ["yes", "no"]⟩), sender, 0⟩,
      ⟨2, payload (.voteBill (.ofTitle "Budget") 1), sender, 0⟩]⟩, [(sender, 5)]⟩,
    ⟨⟨2, 172800, [⟨0, payload (.registerName "ada"), sender, 0⟩,
      ⟨1, payload (.registerName "bob"), other, 0⟩]⟩, [(other, 3)]⟩]

/-- A stop between the two names, after the vote is closed, at which the balances are lost. -/
theorem follow_after_stop_in_second_block :
    let run := follow (.flat 0) poll (start (∅ : Ledger))
    ∃ l : Ledger, l.cursor = some ⟨2, 1⟩ ∧ l.names.entries = [(⟨.fill 20 1⟩, "ada")] ∧
      (l.settlements.get? (.ofTitle "Budget")).isSome ∧ l.coinBalances.entries.length = 2 ∧
      Stream poll ∧ HasFewTokens run.node.store ∧ Committed (.flat 0) poll ∅ l ∧
      run.fault = none ∧ Rejoins (.flat 0) poll run l.withoutCoins := by
  dsimp only
  have hstream : Stream poll := by
    refine ⟨by decide, ?_⟩
    simp only [poll, List.forall_mem_cons, List.not_mem_nil, false_implies, forall_true_iff, and_true]
    refine ⟨⟨by decide, by decide, fun i tx htx => ?_⟩, ⟨by decide, by decide, fun i tx htx => ?_⟩⟩
    · match i, htx with
      | 0, htx => cases htx; rfl
      | 1, htx => cases htx; rfl
      | 2, htx => cases htx; rfl
    · match i, htx with
      | 0, htx => cases htx; rfl
      | 1, htx => cases htx; rfl
  have hfew : HasFewTokens (follow (.flat 0) poll (start (∅ : Ledger))).node.store := Ledger.hasFewTokens_iff.mpr (by decide +kernel)
  let u := poll[0]
  let v := poll[1]
  let n := (follow (.flat 0) [u] (start (∅ : Ledger))).node
  let m : Node Ledger := { n with
    store := n.store.recorded v
    sheet := n.sheet.update v.block.height v.changes }
  have hfacts : (follow (.flat 0) [u] (start (∅ : Ledger))).fault = none ∧
      n.store.isLater v = false ∧
      (match enter v.block m.sheet.coins m.store.cursor m.store with
      | .ok _ s =>
        match (v.block.txs.take 1).mapM (applyOrPass (.flat 0) v.block m.store.cursor) s with
        | .ok _ l => decide (l.cursor = some ⟨2, 1⟩ ∧
          l.names.entries = [(⟨.fill 20 1⟩, "ada")] ∧
          (l.settlements.get? (.ofTitle "Budget")).isSome ∧ l.coinBalances.entries.length = 2)
        | .error _ _ => false
      | .error _ _ => false) = true := by decide +kernel
  obtain ⟨hgoes, hnotLater, hends⟩ := hfacts
  have hrun : follow (.flat 0) [u] (start (∅ : Ledger)) = ⟨none, n⟩ := by rw [← hgoes]
  have hrecord : n.recordBalances v = .ok m := by
    rw [recordBalances_eq, if_neg (by rw [hnotLater]; exact Bool.false_ne_true)]
  obtain ⟨settled, s, outcomes, l, henter, happly, hcursor, hnames, hclosed, hcoins⟩ :
      ∃ settled s outcomes l,
        enter v.block m.sheet.coins m.store.cursor m.store = .ok settled s ∧
        (v.block.txs.take 1).mapM (applyOrPass (.flat 0) v.block m.store.cursor) s =
          .ok outcomes l ∧ l.cursor = some ⟨2, 1⟩ ∧
        l.names.entries = [(⟨.fill 20 1⟩, "ada")] ∧
        (l.settlements.get? (.ofTitle "Budget")).isSome ∧ l.coinBalances.entries.length = 2 := by
    split at hends
    next settled s henter =>
      split at hends
      next outcomes l happly =>
        exact ⟨settled, s, outcomes, l, henter, happly, of_decide_eq_true hends⟩
      next => cases hends
    next => cases hends
  have hstop : Committed (.flat 0) poll ∅ l := by
    have hsplit : poll = [u] ++ v :: [] := rfl
    have htxs : v.block.txs = v.block.txs.take 1 ++ v.block.txs.drop 1 := rfl
    exact .applied hsplit hrun hrecord rfl henter htxs happly
  -- Over updates that are not given, what the backend stands for is compared, and no run.
  have hrejoins {us : List Update} (hus : Stream us)
      (hfew : HasFewTokens (follow (.flat 0) us (start (∅ : Ledger))).node.store)
      (hstop : Committed (.flat 0) us ∅ l) :
      (follow (.flat 0) us (start (∅ : Ledger))).fault = none ∧
        Rejoins (.flat 0) us (follow (.flat 0) us (start ∅)) l.withoutCoins :=
    follow_after_stop (k := .memory) hus hfew hstop (.inr rfl)
  exact ⟨l, hcursor, hnames, hclosed, hcoins, hstream, hfew, hstop, hrejoins hstream hfew hstop⟩

end CivicLedger.Node
