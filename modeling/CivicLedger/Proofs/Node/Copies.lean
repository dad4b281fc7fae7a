import CivicLedger.Proofs.Chain.Visits
import CivicLedger.Proofs.Node.Restart
import CivicLedger.Survey.Basic

/-!
# The copies that a node keeps

Coin balances and the last block stand in the store of a node, and again in its sheet and its tip.
Whatever updates it takes and however often it is opened again, the copies are those of the store,
and an update that is refused changes none of them.
-/

namespace CivicLedger

open Chain Program

namespace Ledger

variable {l l' : Ledger} {fees : FeeSchedule} {b : Block}

/-- Once no number is left for a new token, none is left any more. -/
theorem stable_isFull : Stable IsFull where
  enact := by
    intro l point sender op effect hs hfull ha hroom
    unfold IsFull at hfull ⊢
    cases ha with
    | @createToken d =>
      have hfree := SortedMap.contains_eq_false.mp hroom
      rw [enact_createToken]
      refine Nat.le_trans (Nat.le_succ_of_le hfull) (Nat.le_of_eq ?_)
      exact (SortedMap.size_insert_of_absent hfree _).symm
    | voteDelegates => rwa [enact_voteDelegates]
    | revokeDelegates => rwa [enact_revokeDelegates]
    | transferToken => rwa [enact_transferToken]
    | lockToken => rwa [enact_lockToken]
    | _ => exact hfull
  closed := by
    intro l b coins id bill _ hfull _ _ _
    have htokens := (Prod.mk.inj (tokenPart_closed l b coins id)).1
    unfold IsFull at hfull ⊢
    rwa [htokens]
  cursor _ h := h

def IsAt (l : Ledger) (b : Block) : Prop := l.cursor.map Cursor.height = some b.height

theorem isAt_entered (l : Ledger) (b : Block) (coins : Coins)
    (hcursor : ∀ c, l.cursor = some c → ¬ b.height < c.height) :
    (l.entered b coins l.cursor).IsAt b := by
  unfold Ledger.entered
  by_cases henters : entersBlock l.cursor b = true
  · rw [if_pos henters]
    rfl
  · rw [if_neg henters]
    cases hc : l.cursor with
    | none =>
      rw [hc] at henters
      exact absurd rfl henters
    | some c =>
      have hkept : (l.settledAll b coins).cursor = l.cursor := by
        refine keeps_settledAll b coins Ledger.cursor (fun m id => ?_) l
        unfold closed
        split <;> rfl
      have hnotBelow : ¬ c.height < b.height := by
        intro hlt
        rw [hc] at henters
        exact henters (decide_eq_true hlt)
      have hheight : c.height = b.height :=
        UInt64.le_antisymm (UInt64.not_lt.mp (hcursor c hc)) (UInt64.not_lt.mp hnotBelow)
      unfold IsAt
      rw [hkept, hc, Option.map_some, hheight]

theorem located_of_taken {txs : List Tx} (hs : l.Sound) (hat : l.IsAt b)
    (ht : Taken fees b txs l l') : l'.coinPart = l.coinPart ∧ l'.IsAt b := by
  induction ht with
  | nil => exact ⟨rfl, hat⟩
  | cons happly _ ih =>
    obtain ⟨m, hm, rfl⟩ := hs.processed_of_applyTx happly
    obtain ⟨hcoins, hat'⟩ := ih ((hm.sound hs).withCursor _) rfl
    exact ⟨hcoins.trans hm.coinPart, hat'⟩

/-- A block that is not behind the cursor is applied, or the numbers of tokens are used up on the
way. -/
theorem Sound.applyChecked_cases (h : l.Sound) (fees : FeeSchedule) (coins : Coins)
    (hcursor : ∀ c, l.cursor = some c → ¬ b.height < c.height) :
    (∃ report l', applyChecked fees b coins l = .ok report l' ∧ report.skipped = false ∧
      l'.Sound ∧ l'.coinPart = l.coinPart ∧ l'.IsAt b) ∨
    ∃ fault l', applyChecked fees b coins l = .error fault l' ∧ l'.IsFull := by
  have hends := ends_applyChecked_sound fees b coins l h
  cases hrun : applyChecked fees b coins l with
  | error fault l' =>
    rw [hrun] at hends
    exact .inr ⟨fault, l', rfl, hends.2.1⟩
  | ok report l' =>
    rw [hrun] at hends
    obtain ⟨hskipped, outcomes, htxs⟩ := h.mapM_of_applyChecked hcursor hrun
    obtain ⟨taken, htaken⟩ := exists_taken_mapM fees b l.cursor b.txs (l.entered b coins l.cursor)
    rw [htxs] at htaken
    have hentered := h.entered b coins l.cursor
    obtain ⟨hcoins, hat⟩ := located_of_taken hentered (isAt_entered l b coins hcursor) htaken
    refine .inl ⟨report, l', rfl, hskipped, hends, ?_, hat⟩
    exact hcoins.trans (coinPart_entered l b coins l.cursor)

end Ledger

/-- Stores that are read alike are pinned to the same block and coins. -/
theorem Alike.pin {σ τ : Type} [LedgerReads σ] [LedgerReads τ] {s : σ} {t : τ} (h : Alike s t) :
    Survey.pin t = (Survey.pin s).map fun v => ⟨t, v.coins, v.point⟩ := by
  unfold Survey.pin
  rw [← h.synced?, ← h.cursor?, ← h.coinBalances]
  cases LedgerReads.synced? s with
  | error fault => rfl
  | ok synced =>
    cases synced with
    | some point => cases LedgerReads.coinBalances s <;> rfl
    | none =>
      cases LedgerReads.cursor? s with
      | error fault => rfl
      | ok cursor => cases LedgerReads.coinBalances s <;> rfl

namespace Node

section

variable {σ : Type} [LedgerEdits σ]

/-- The nodes that come of a store: one is opened over it, takes updates, and is opened again over
what it has stored. -/
inductive Lived (s₀ : σ) : Node σ → Prop where
  | opened {n : Node σ} (hopen : restore s₀ = .ok n) : Lived s₀ n
  | took {n : Node σ} (fees : FeeSchedule) (u : Update) (h : Lived s₀ n) :
    Lived s₀ (deliver fees n u).node
  | again {n m : Node σ} (h : Lived s₀ n) (hopen : restore n.store = .ok m) : Lived s₀ m

/-- The sheet and the tip of a node are what its store has recorded, questions are answered at the
same block, and a node opened over the store has the same sheet and tip. -/
structure Current (n : Node σ) : Prop where
  sheet : LedgerReads.coinBalances n.store = .ok n.sheet.coins.entries
  height : Yields (LedgerReads.synced? n.store) fun last =>
    n.sheet.height = (last.map ChainPoint.height).getD 0
  tip : Yields (LedgerReads.synced? n.store) fun last => n.tip = last.getD ⟨0, 0⟩
  pinned : Yields (Survey.pin n.store) fun v => v.point = n.tip ∧ v.coins = n.sheet.coins
  restored : ∃ m, restore n.store = .ok m ∧ m.store = n.store ∧ m.sheet = n.sheet ∧ m.tip = n.tip

end

theorem store_of_restore {σ : Type} [LedgerEdits σ] {s : σ} {n : Node σ} (h : restore s = .ok n) :
    n.store = s := by
  unfold restore at h
  cases hsynced : readStore (LedgerReads.synced? s) with
  | error fault => rw [hsynced] at h; cases h
  | ok synced =>
    cases hcoins : readStore (LedgerReads.coinBalances s) with
    | error fault => rw [hsynced, hcoins] at h; cases h
    | ok coins =>
      rw [hsynced, hcoins] at h
      cases hcursor : LedgerReads.cursor? s with
      | error fault => rw [hcursor] at h; cases h
      | ok cursor =>
        rw [hcursor] at h
        cases h
        rfl

variable {n m : Node Ledger} {fees : FeeSchedule} {u : Update}

structure Level (n : Node Ledger) : Prop where
  sound : n.store.Sound
  going : n.applicant.halted = false
  noZero : Coins.NoZero n.store.coinBalances
  blank : n.store.synced = none → n.store.coinBalances = ∅
  sheet : n.sheet = ⟨(n.store.synced.map ChainPoint.height).getD 0, n.store.coinBalances⟩
  tip : n.tip = n.store.synced.getD ⟨0, 0⟩
  cursor : n.store.cursor.map Cursor.height = n.store.synced.map ChainPoint.height

theorem level_start : Level (start ∅) where
  sound := Ledger.sound_empty
  going := rfl
  noZero := fun _ => nofun
  blank := fun _ => rfl
  sheet := rfl
  tip := rfl
  cursor := rfl

/-- Without a recorded block the cursor stands nowhere. -/
theorem Level.cursor_eq_none (h : Level n) (hs : n.store.synced = none) :
    n.store.cursor = none := by
  have hcursor := h.cursor
  rwa [hs, Option.map_none, Option.map_eq_none_iff] at hcursor

theorem Level.restore (h : Level n) :
    Node.restore n.store = .ok ⟨n.store, fresh, n.sheet, n.tip, .zero⟩ := by
  have hsynced : LedgerReads.synced? n.store = .ok n.store.synced := rfl
  have hcoins : LedgerReads.coinBalances n.store = .ok n.store.coinBalances.entries := rfl
  have hcursor : LedgerReads.cursor? n.store = .ok n.store.cursor := rfl
  unfold Node.restore
  rw [hsynced, hcoins, hcursor, h.sheet, h.tip]
  cases hs : n.store.synced with
  | none =>
    rw [h.cursor_eq_none hs, h.blank hs]
    rfl
  | some point =>
    have hsheet := Sheet.ofRecorded_entries h.noZero point.height
    exact congrArg (fun sheet => Except.ok (Node.mk n.store fresh sheet point .zero)) hsheet

theorem Level.pin (h : Level n) :
    Survey.pin n.store = .ok ⟨n.store, n.sheet.coins, n.tip⟩ := by
  have hsynced : LedgerReads.synced? n.store = .ok n.store.synced := rfl
  have hcursor : LedgerReads.cursor? n.store = .ok n.store.cursor := rfl
  have hcoins : SortedMap.ofList n.store.coinBalances.entries = n.sheet.coins := by
    rw [SortedMap.ofList_entries, h.sheet]
  unfold Survey.pin
  rw [← hcoins, hsynced, hcursor, h.tip]
  cases hs : n.store.synced with
  | none =>
    rw [h.cursor_eq_none hs]
    rfl
  | some point => rfl

theorem Level.current (h : Level n) : Current n where
  sheet := by
    rw [h.sheet]
    rfl
  height := ⟨n.store.synced, rfl, congrArg Sheet.height h.sheet⟩
  tip := ⟨n.store.synced, rfl, h.tip⟩
  pinned := ⟨_, h.pin, rfl, rfl⟩
  restored := ⟨_, h.restore, rfl, rfl, rfl⟩

theorem Level.reopened (h : Level n) (hopen : Node.restore n.store = .ok m) : Level m := by
  rw [h.restore] at hopen
  cases hopen
  exact { h with going := rfl }

/-- An update below the recorded block is skipped. -/
theorem Level.skips (h : Level n) (hlater : n.store.isLater u = true) :
    applyChecked fees u.block n.sheet.coins n.store =
      .ok ⟨u.block.height, [], [], true⟩ n.store := by
  unfold Ledger.isLater at hlater
  cases hs : n.store.synced with
  | none => rw [hs] at hlater; cases hlater
  | some point =>
    rw [hs] at hlater
    have hcursor := h.cursor
    rw [hs, Option.map_some] at hcursor
    obtain ⟨c, hc, hheight⟩ := Option.map_eq_some_iff.mp hcursor
    have hlt : u.block.height < c.height := by
      rw [hheight]
      exact of_decide_eq_true hlater
    exact Ledger.applyChecked_of_lt hc hlt

/-- Any other update is not behind the cursor. -/
theorem Level.not_behind (h : Level n) (hlater : ¬ n.store.isLater u = true) :
    ∀ c, (n.store.recorded u).cursor = some c → ¬ u.block.height < c.height := by
  intro c hc hlt
  have hcursor := h.cursor
  change n.store.cursor = some c at hc
  rw [hc, Option.map_some] at hcursor
  obtain ⟨point, hs, hheight⟩ := Option.map_eq_some_iff.mp hcursor.symm
  apply hlater
  unfold Ledger.isLater
  rw [hs]
  rw [← hheight] at hlt
  exact decide_eq_true hlt

/-- An update is refused and changes nothing, or is taken and leaves the copies level, or uses up
the numbers of tokens. -/
theorem Level.deliver_cases (h : Level n) (fees : FeeSchedule) (u : Update) :
    (∃ fault notices, deliver fees n u = ⟨.error fault, n, notices⟩) ∨
    (∃ report, (deliver fees n u).result = .ok report ∧ Level (deliver fees n u).node) ∨
    (deliver fees n u).node.store.IsFull := by
  cases hcheck : check n.applicant u.block with
  | error fault =>
    exact .inl ⟨_, _, deliver_of_check_error fees hcheck⟩
  | ok _ =>
    right
    by_cases hlater : n.store.isLater u = true
    · have hrecord : n.recordBalances u = .ok n := recordBalances_of_later hlater
      have hrun : applyChecked fees u.block n.sheet.coins n.store = .ok _ n.store := h.skips hlater
      have hdeliver := deliver_ok hcheck hrecord rfl hrun
      rw [hdeliver]
      exact .inl ⟨_, rfl, { h with going := rfl }⟩
    · have hrecord := recordBalances_of_not_later (congrArg Sheet.coins h.sheet) hlater
      have hsound : (n.store.recorded u).Sound := h.sound.withCoins _ _
      rcases hsound.applyChecked_cases fees (n.store.recorded u).coinBalances
        (h.not_behind hlater) with
        ⟨report, l, hrun, hskipped, hl, hcoins, hat⟩ | ⟨fault, l, hrun, hfull⟩
      · have hdeliver := deliver_ok hcheck hrecord rfl hrun
        obtain ⟨hbalances, hsynced⟩ := Prod.mk.inj hcoins
        rw [hdeliver]
        refine .inl ⟨report, rfl, hl, rfl, ?_, ?_, ?_, ?_, ?_⟩
        · change Coins.NoZero l.coinBalances
          rw [hbalances]
          exact h.noZero.update u.changes
        · intro hnone
          change l.synced = none at hnone
          rw [hsynced] at hnone
          cases hnone
        · change _ = Sheet.mk ((l.synced.map ChainPoint.height).getD 0) l.coinBalances
          rw [hsynced, hbalances]
          rfl
        · change (if report.skipped = true then n.tip else u.block.point) = l.synced.getD ⟨0, 0⟩
          rw [hskipped, hsynced]
          rfl
        · change l.cursor.map Cursor.height = l.synced.map ChainPoint.height
          rw [hat, hsynced]
          rfl
      · obtain ⟨_, hstore⟩ := deliver_error hcheck hrecord rfl hrun
        rw [hstore]
        exact .inr hfull

/-- What every change that blocks make keeps, and recording balances too, a node keeps. -/
theorem keeps_deliver {I : Ledger → Prop} (hI : Ledger.Stable I)
    (hcoins : ∀ {l : Ledger} coins point, I l → I (l.withCoins coins point))
    (hs : n.store.Sound) (h : I n.store) (fees : FeeSchedule) (u : Update) :
    (deliver fees n u).node.store.Sound ∧ I (deliver fees n u).node.store := by
  have happly (m : Node Ledger) (hs : m.store.Sound) (h : I m.store) :=
    hI.apply hs h fees m.applicant u.block m.sheet.coins
  cases hcheck : check n.applicant u.block with
  | error fault =>
    rw [deliver_of_check_error fees hcheck]
    exact ⟨hs, h⟩
  | ok _ =>
    by_cases hlater : n.store.isLater u = true
    · have hrecord : n.recordBalances u = .ok n := recordBalances_of_later hlater
      rw [(deliver_of_recorded fees hcheck hrecord).1]
      exact happly n hs h
    · have hrecord := recordBalances_eq n u
      rw [if_neg hlater] at hrecord
      rw [(deliver_of_recorded fees hcheck hrecord).1]
      exact happly _ (hs.withCoins _ _) (hcoins _ _ h)

/-- What blocks and balances keep holds of every node that comes of a new store. -/
theorem invariant_of_lived {I : Ledger → Prop} (hI : Ledger.Stable I) (hstart : I ∅)
    (hcoins : ∀ {l : Ledger} coins point, I l → I (l.withCoins coins point)) (h : Lived ∅ n) :
    n.store.Sound ∧ I n.store := by
  induction h with
  | opened hopen =>
    rw [store_of_restore hopen]
    exact ⟨Ledger.sound_empty, hstart⟩
  | took fees u _ ih => exact keeps_deliver hI hcoins ih.1 ih.2 fees u
  | again _ hopen ih => rwa [store_of_restore hopen]

/-- A node is level unless the numbers of tokens are used up. -/
theorem level_or_full (h : Lived ∅ n) : Level n ∨ n.store.IsFull := by
  induction h with
  | opened hopen =>
    cases hopen.symm.trans (restore_opened .memory)
    exact .inl level_start
  | took fees u hlived ih =>
    obtain hlevel | hfull := ih
    · rcases hlevel.deliver_cases fees u with ⟨_, _, hrefused⟩ | ⟨_, _, hlevel⟩ | hfull
      · rw [hrefused]
        exact .inl hlevel
      · exact .inl hlevel
      · exact .inr hfull
    · have hsound :=
        (invariant_of_lived Ledger.invariant_true.toStable trivial (fun _ _ h => h) hlived).1
      exact .inr (keeps_deliver Ledger.stable_isFull (fun _ _ h => h) hsound hfull fees u).2
  | again _ hopen ih =>
    obtain hlevel | hfull := ih
    · exact .inl (hlevel.reopened hopen)
    · exact .inr (by rwa [store_of_restore hopen])

theorem level_of_lived (h : Lived ∅ n) (hfew : HasFewTokens n.store) : Level n := by
  rcases level_or_full h with hlevel | hfull
  · exact hlevel
  · exact absurd hfull (Nat.not_le.mpr (Ledger.hasFewTokens_iff.mp hfew))

theorem exists_restore (l : Ledger) : ∃ n, Node.restore l = .ok n := by
  have hsynced : LedgerReads.synced? l = .ok l.synced := rfl
  have hcoins : LedgerReads.coinBalances l = .ok l.coinBalances.entries := rfl
  have hcursor : LedgerReads.cursor? l = .ok l.cursor := rfl
  unfold Node.restore
  rw [hsynced, hcoins, hcursor]
  exact ⟨_, rfl⟩

/-- What a node over a database comes to, a node over the ledger that it holds comes to. -/
theorem exists_shadows_of_lived {m : Node Database} (h : Lived Database.opened m) :
    ∃ n, Lived ∅ n ∧ Shadows n m := by
  induction h with
  | opened hopen =>
    obtain ⟨n, hn⟩ := exists_restore ∅
    obtain ⟨m', hm', hshadows⟩ := exists_shadows_of_restore Database.mirrors_opened hn
    rw [hopen] at hm'
    cases hm'
    exact ⟨n, .opened hn, hshadows⟩
  | took fees u _ ih =>
    obtain ⟨n, hn, hshadows⟩ := ih
    exact ⟨_, .took fees u hn, (hshadows.deliver fees u).2⟩
  | again _ hopen ih =>
    obtain ⟨n, hn, hshadows⟩ := ih
    obtain ⟨n', hn'⟩ := exists_restore n.store
    obtain ⟨m', hm', hshadows'⟩ := exists_shadows_of_restore hshadows.store hn'
    rw [hopen] at hm'
    cases hm'
    exact ⟨n', .again hn hn', hshadows'⟩

theorem Shadows.current {m : Node Database} (h : Shadows n m) (hn : Current n) : Current m := by
  obtain ⟨v, hpin, hpoint, hcoins⟩ := hn.pinned
  obtain ⟨n', hn', -, hsheet, htip⟩ := hn.restored
  obtain ⟨m', hm', hshadows⟩ := exists_shadows_of_restore h.store hn'
  have hpin' := h.store.alike.pin
  rw [hpin] at hpin'
  refine ⟨?_, ?_, ?_, ⟨_, hpin', ?_, ?_⟩, m', hm', store_of_restore hm', ?_, ?_⟩
  · rw [← h.store.alike.coinBalances, h.sheet]
    exact hn.sheet
  · rw [← h.store.alike.synced?, h.sheet]
    exact hn.height
  · rw [← h.store.alike.synced?, h.tip]
    exact hn.tip
  · rw [h.tip]
    exact hpoint
  · rw [h.sheet]
    exact hcoins
  · rw [hshadows.sheet, hsheet, h.sheet]
  · rw [hshadows.tip, htip, h.tip]

/-- Whatever updates a node takes over a new store, and however often it is opened again, its sheet
and its tip are what the store has recorded, while there are fewer tokens than the largest number.
An update that fails has changed neither the store nor the copies. -/
theorem copies_agree {k : Backend} {n : Node k.Store} (h : Lived k.opened n)
    (hfew : HasFewTokens n.store) :
    Current n ∧ ∀ fees u fault, HasFewTokens (deliver fees n u).node.store →
      (deliver fees n u).result = .error fault →
        (deliver fees n u).node.store = n.store ∧ (deliver fees n u).node.sheet = n.sheet ∧
          (deliver fees n u).node.tip = n.tip := by
  have hledger {n : Node Ledger} (h : Lived ∅ n) (hfew : HasFewTokens n.store) (fees : FeeSchedule)
      (u : Update) {fault : NodeFault} (hfew' : HasFewTokens (deliver fees n u).node.store)
      (hfault : (deliver fees n u).result = .error fault) : (deliver fees n u).node = n := by
    rcases (level_of_lived h hfew).deliver_cases fees u with ⟨_, _, hsame⟩ | ⟨_, hok, _⟩ | hfull
    · rw [hsame]
    · rw [hfault] at hok
      cases hok
    · exact absurd hfull (Nat.not_le.mpr (Ledger.hasFewTokens_iff.mp hfew'))
  cases k with
  | memory =>
    refine ⟨(level_of_lived h hfew).current, ?_⟩
    intro fees u fault hfew' hfault
    have hsame := hledger h hfew fees u hfew' hfault
    exact ⟨congrArg Node.store hsame, congrArg Node.sheet hsame, congrArg Node.tip hsame⟩
  | tables =>
    obtain ⟨l, hl, hshadows⟩ := exists_shadows_of_lived h
    have hfewl := hshadows.store.alike.hasFewTokens.mpr hfew
    refine ⟨hshadows.current (level_of_lived hl hfewl).current, ?_⟩
    intro fees u fault hfew' hfault
    obtain ⟨hresult, hafter⟩ := hshadows.deliver fees u
    have hsame := hledger hl hfewl fees u (hafter.store.alike.hasFewTokens.mpr hfew')
      (hresult.symm.trans hfault)
    rw [hsame] at hafter
    exact ⟨hafter.store.unique hshadows.store, hafter.sheet.trans hshadows.sheet.symm,
      hafter.tip.trans hshadows.tip.symm⟩

/-- A node is opened again after its first update, skips a block from before, and refuses one whose
transactions are out of order. -/
theorem copies_agree_after_reopening :
    let holder : KeyId := ⟨.fill 20 1⟩
    let u : Update := ⟨⟨2, 20, []⟩, [(holder, 5)]⟩
    let v : Update := ⟨⟨1, 10, []⟩, [(holder, 7)]⟩
    let w : Update := ⟨⟨3, 30, [⟨1, [], holder, 0⟩, ⟨0, [], holder, 0⟩]⟩, [(holder, 9)]⟩
    let n := (deliver (.flat 0) (start (∅ : Ledger)) u).node
    let m : Node Ledger :=
      ⟨n.store, fresh, ⟨2, SortedMap.empty.insert holder 5⟩, ⟨2, 20⟩, .zero⟩
    let r := (deliver (.flat 0) m v).node
    restore n.store = .ok m ∧ r.sheet = m.sheet ∧ Current r ∧
      (deliver (.flat 0) r w).result = .error (.chain (.txOrder 3 0)) ∧
      (deliver (.flat 0) r w).node.store = r.store := by
  intro holder u v w n m r
  have hopen : restore n.store = .ok m := rfl
  have hlived : Lived ∅ r :=
    .took (.flat 0) v (.again (.took (.flat 0) u (.opened (restore_opened .memory))) hopen)
  have hfew : HasFewTokens r.store := Ledger.hasFewTokens_iff.mpr (by decide +kernel)
  have hfew' : HasFewTokens (deliver (.flat 0) r w).node.store :=
    Ledger.hasFewTokens_iff.mpr (by decide +kernel)
  have hfault : (deliver (.flat 0) r w).result = .error (.chain (.txOrder 3 0)) := rfl
  have hagree := copies_agree (k := .memory) hlived hfew
  exact ⟨hopen, rfl, hagree.1, hfault, (hagree.2 _ w _ hfew' hfault).1⟩

end Node

end CivicLedger
