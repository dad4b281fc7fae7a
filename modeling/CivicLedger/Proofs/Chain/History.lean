import CivicLedger.Proofs.Chain.Outcomes
import CivicLedger.Proofs.Chain.Resume

/-!
# The history of bills

Blocks come one after another, in any order and at any times, some of them again. A bill is settled
by the first block after the one that stored it which is not skipped and whose time is not before
the end of its window. No later block changes the outcome, or the votes that it is the tally of.
-/

namespace CivicLedger

open Program Chain

namespace Chain

/-- A block that comes, with the fees and the coins that are in force then. Before it the applicant
may be made anew. -/
structure Arrival where
  anew : Bool
  fees : FeeSchedule
  block : Block
  coins : Coins

section

variable {σ : Type} [LedgerEdits σ]

def Arrival.applicant (c : Arrival) (a : Applicant) : Applicant := if c.anew then fresh else a

def Arrival.apply (c : Arrival) (a : Applicant) (s : σ) : Applied σ :=
  Chain.apply c.fees (c.applicant a) c.block c.coins s

def Arrival.Enters (c : Arrival) (a : Applicant) (s : σ) : Prop :=
  check (c.applicant a) c.block = .ok () ∧
    ∀ report, (c.apply a s).result = .ok report → report.skipped = false

def course (s₀ : σ) (arrivals : Nat → Arrival) : Nat → Applicant × σ
  | 0 => (fresh, s₀)
  | n + 1 =>
    let r := (arrivals n).apply (course s₀ arrivals n).1 (course s₀ arrivals n).2
    (r.applicant, r.store)

theorem reached_course (s₀ : σ) (arrivals : Nat → Arrival) (n : Nat) :
    Reached s₀ (course s₀ arrivals n).1 (course s₀ arrivals n).2 := by
  induction n with
  | zero => exact .start
  | succ n ih =>
    refine .block (arrivals n).fees (arrivals n).block (arrivals n).coins ?_
    unfold Arrival.applicant
    split
    · exact ih.anew
    · exact ih

end

def IsFirst (P : Nat → Prop) (n : Nat) : Prop := P n ∧ ∀ m < n, ¬ P m

theorem IsFirst.unique {P : Nat → Prop} {m n : Nat} (hm : IsFirst P m) (hn : IsFirst P n) :
    m = n := by
  rcases Nat.lt_trichotomy m n with hlt | heq | hlt
  · exact absurd hm.1 (hn.2 m hlt)
  · exact heq
  · exact absurd hn.1 (hm.2 n hlt)

section

variable {σ : Type} [LedgerEdits σ] (s₀ : σ) (arrivals : Nat → Arrival) (id : BillId)

def Stores (i : Nat) (bill : Bill) : Prop :=
  LedgerReads.bill? (course s₀ arrivals i).2 id = .ok none ∧
    LedgerReads.bill? (course s₀ arrivals (i + 1)).2 id = .ok (some bill)

def Settles (j : Nat) : Prop :=
  LedgerReads.settlement? (course s₀ arrivals j).2 id = .ok none ∧
    ∃ r, LedgerReads.settlement? (course s₀ arrivals (j + 1)).2 id = .ok (some r)

/-- Arrival `j` is after the one that stored the bill, enters, and is not before the end of the
bill's window. -/
def Falls (i : Nat) (bill : Bill) (j : Nat) : Prop :=
  i < j ∧ (arrivals j).Enters (course s₀ arrivals j).1 (course s₀ arrivals j).2 ∧
    bill.closes ≤ (arrivals j).block.time

/-- What becomes of a bill while blocks come. -/
structure SettlesOnce : Prop where
  arises : ∀ n bill, LedgerReads.bill? (course s₀ arrivals n).2 id = .ok (some bill) →
    ∃ i < n, Stores s₀ arrivals id i bill
  settled : ∀ i bill, Stores s₀ arrivals id i bill →
    ∀ j, Settles s₀ arrivals id j ↔ IsFirst (Falls s₀ arrivals i bill) j
  once : ∀ j j', Settles s₀ arrivals id j → Settles s₀ arrivals id j' → j = j'
  final : ∀ n r, LedgerReads.settlement? (course s₀ arrivals n).2 id = .ok (some r) → ∀ m, n ≤ m →
    LedgerReads.settlement? (course s₀ arrivals m).2 id = .ok (some r) ∧
      LedgerReads.bill? (course s₀ arrivals m).2 id =
        LedgerReads.bill? (course s₀ arrivals n).2 id ∧
      LedgerReads.ballots (course s₀ arrivals m).2 id =
        LedgerReads.ballots (course s₀ arrivals n).2 id

end

end Chain

namespace Ledger

open SortedMap

variable {l l' : Ledger}

section Arrival

variable {c : Arrival} {a : Applicant} {id : BillId} {bill : Bill}

theorem unskipped_of_applyBody {fees : FeeSchedule} {b : Block} {coins : Coins}
    {cursor : Option Cursor} {report : BlockReport}
    (h : applyBody fees b coins cursor l = .ok report l') : report.skipped = false := by
  obtain ⟨settled, mid, _, hrest⟩ := bind_eq_ok.mp h
  obtain ⟨outcomes, _, _, hpure⟩ := bind_eq_ok.mp hrest
  obtain ⟨rfl, _⟩ := pure_eq_ok.mp hpure
  rfl

/-- The blocks that enter are those that the check passes and that are not behind the cursor. -/
theorem enters_iff : c.Enters a l ↔ check (c.applicant a) c.block = .ok () ∧
    ∀ cursor, l.cursor = some cursor → ¬ c.block.height < cursor.height := by
  unfold Arrival.Enters Arrival.apply Chain.apply
  refine and_congr_right fun hcheck => ?_
  rw [hcheck]
  constructor
  · intro hnot cursor hcursor hlt
    have hskipped := hnot ⟨c.block.height, [], [], true⟩ (by rw [applyChecked_of_lt hcursor hlt])
    cases hskipped
  · intro hahead report hreport
    rw [applyChecked_eq hahead] at hreport
    dsimp only at hreport
    split at hreport
    · next hbody =>
      cases hreport
      exact unskipped_of_applyBody hbody
    · cases hreport

theorem store_of_not_enters (h : ¬ c.Enters a l) : (c.apply a l).store = l := by
  unfold Arrival.apply
  cases hcheck : check (c.applicant a) c.block with
  | error fault =>
    unfold Chain.apply
    rw [hcheck]
  | ok _ =>
    obtain ⟨cursor, hcursor, hlt⟩ :
        ∃ cursor, l.cursor = some cursor ∧ c.block.height < cursor.height :=
      Classical.byContradiction fun hnot =>
        h (enters_iff.mpr ⟨hcheck, fun cursor hcursor hlt => hnot ⟨cursor, hcursor, hlt⟩⟩)
    rw [store_of_check hcheck, applyChecked_of_lt hcursor hlt]
    rfl

theorem Sound.taken_of_enters (h : l.Sound) (he : c.Enters a l) :
    ∃ txs, Taken c.fees c.block txs (l.entered c.block c.coins l.cursor) (c.apply a l).store := by
  obtain ⟨hcheck, hahead⟩ := enters_iff.mp he
  obtain ⟨settled, _, henter⟩ := h.scheduled.enter_apply c.block c.coins l.cursor
  have htaken := exists_taken_mapM c.fees c.block l.cursor c.block.txs
    (l.entered c.block c.coins l.cursor)
  unfold Arrival.apply
  rw [store_of_check hcheck, applyChecked_eq hahead]
  unfold applyBody
  rwa [bind_ok henter, left_bind_pure]

theorem settlements_taken (h : l.Sound) {fees : FeeSchedule} {b : Block} {txs : List Tx}
    (ht : Taken fees b txs l l') : l'.settlements = l.settlements := by
  induction ht with
  | nil => rfl
  | cons happly _ ih =>
    obtain ⟨m, hm, rfl⟩ := h.processed_of_applyTx happly
    refine (ih ((hm.sound h).withCursor _)).trans ?_
    cases hm with
    | unchanged _ => rfl
    | enacted _ _ _ => exact settlements_enact _ _

theorem bills_entered (l : Ledger) (b : Block) (coins : Coins) (cursor : Option Cursor) :
    (l.entered b coins cursor).bills = l.bills :=
  keeps_entered b coins bills (bills_closed · b coins ·) (fun _ _ => rfl) l cursor

theorem Sound.follows_apply (h : l.Sound) (c : Arrival) (a : Applicant) :
    l.Follows (c.apply a l).store := by
  by_cases he : c.Enters a l
  · obtain ⟨txs, htaken⟩ := h.taken_of_enters he
    obtain ⟨hsound, hfollows⟩ :=
      (stable_follows l).entered h (.refl l) c.block c.coins l.cursor
    exact ((stable_follows l).taken hsound hfollows htaken).2
  · rw [store_of_not_enters he]
    exact .refl l

/-- The block that stores a bill does not settle it. -/
theorem Sound.settlement_of_new (h : l.Sound) (hfree : l.bills.get? id = none)
    (hb : (c.apply a l).store.bills.get? id = some bill) :
    (c.apply a l).store.settlements.get? id = none := by
  by_cases he : c.Enters a l
  · obtain ⟨txs, htaken⟩ := h.taken_of_enters he
    have hentered := h.entered c.block c.coins l.cursor
    rw [settlements_taken hentered htaken, Option.eq_none_iff_forall_ne_some]
    intro r hr
    obtain ⟨bill', hb'⟩ := hentered.scheduled.settled id r hr
    rw [bills_entered, hfree] at hb'
    cases hb'
  · rw [store_of_not_enters he, hfree] at hb
    cases hb

/-- A block settles a stored bill if it enters at a time when the bill is due. -/
theorem Sound.settlement_apply (h : l.Sound) (hb : l.bills.get? id = some bill) :
    (c.apply a l).store.settlements.get? id = none ↔
      l.settlements.get? id = none ∧ ¬ (c.Enters a l ∧ bill.closes ≤ c.block.time) := by
  by_cases he : c.Enters a l
  · obtain ⟨txs, htaken⟩ := h.taken_of_enters he
    have hentered := h.entered c.block c.coins l.cursor
    have hb' : (l.entered c.block c.coins l.cursor).bills.get? id = some bill := by
      rwa [bills_entered]
    have hdue : (l.entered c.block c.coins l.cursor).dueBills =
        (l.settledAll c.block c.coins).dueBills := by
      unfold Ledger.entered
      split <;> rfl
    rw [settlements_taken hentered htaken, hentered.scheduled.unsettled_iff hb', hdue,
      h.scheduled.dueBills_settledAll, h.scheduled.unsettled_iff hb, ← UInt64.not_le]
    simp only [he, true_and]
    exact and_comm
  · rw [store_of_not_enters he]
    simp [he]

end Arrival

section Course

variable (arrivals : Nat → Arrival) {id : BillId} {bill : Bill}

theorem sound_course (n : Nat) : (course (∅ : Ledger) arrivals n).2.Sound :=
  (sound_of_reached (reached_course ∅ arrivals n)).1

theorem follows_course {m n : Nat} (h : m ≤ n) :
    (course (∅ : Ledger) arrivals m).2.Follows (course (∅ : Ledger) arrivals n).2 := by
  obtain ⟨k, rfl⟩ := Nat.exists_eq_add_of_le h
  induction k with
  | zero => exact .refl _
  | succ k ih =>
    have hnext := (sound_course arrivals (m + k)).follows_apply (arrivals (m + k))
      (course (∅ : Ledger) arrivals (m + k)).1
    exact (ih (Nat.le_add_right m k)).trans hnext

theorem exists_stores {n : Nat}
    (hb : (course (∅ : Ledger) arrivals n).2.bills.get? id = some bill) :
    ∃ i < n, Stores (∅ : Ledger) arrivals id i bill := by
  induction n with
  | zero => cases hb
  | succ n ih =>
    cases hbefore : (course (∅ : Ledger) arrivals n).2.bills.get? id with
    | none => exact ⟨n, n.lt_succ_self, congrArg Except.ok hbefore, congrArg Except.ok hb⟩
    | some bill' =>
      have hkept := (follows_course arrivals n.le_succ).bills id bill' hbefore
      rw [hb] at hkept
      cases hkept
      obtain ⟨i, hi, hstores⟩ := ih hbefore
      exact ⟨i, Nat.lt_succ_of_lt hi, hstores⟩

/-- A bill is not settled as long as no arrival has fallen to it. -/
theorem unsettled_course {i : Nat} (h : Stores (∅ : Ledger) arrivals id i bill) (n : Nat) :
    (course (∅ : Ledger) arrivals n).2.settlements.get? id = none ↔
      ∀ m < n, ¬ Falls (∅ : Ledger) arrivals i bill m := by
  obtain ⟨hfree, hstored⟩ := h
  have hnew := (sound_course arrivals i).settlement_of_new (Except.ok.inj hfree)
    (Except.ok.inj hstored)
  -- Up to the arrival that stores the bill nothing falls to it, and after that each arrival either
  -- falls to it or leaves it as it is.
  induction n with
  | zero => exact ⟨fun _ _ hm => absurd hm (Nat.not_lt_zero _), fun _ => rfl⟩
  | succ n ih =>
    rw [Nat.forall_lt_succ_right]
    rcases Nat.lt_or_ge i n with hafter | hbefore
    · have hb := (follows_course arrivals hafter).bills id bill (Except.ok.inj hstored)
      refine ((sound_course arrivals n).settlement_apply hb).trans (and_congr ih ?_)
      simp only [Falls, hafter, true_and]
    · have hnone : (course (∅ : Ledger) arrivals (n + 1)).2.settlements.get? id = none := by
        rw [Option.eq_none_iff_forall_ne_some]
        intro r hr
        have hlater := (follows_course arrivals (Nat.succ_le_succ hbefore)).settlements id r hr
        exact absurd (hnew.symm.trans hlater) nofun
      simp only [hnone, true_iff]
      refine ⟨fun m hm hfalls => ?_, fun hfalls => ?_⟩
      · exact absurd hfalls.1 (by omega)
      · exact absurd hfalls.1 (by omega)

theorem settles_iff {i : Nat} (h : Stores (∅ : Ledger) arrivals id i bill) (j : Nat) :
    Settles (∅ : Ledger) arrivals id j ↔ IsFirst (Falls (∅ : Ledger) arrivals i bill) j := by
  have hbefore := unsettled_course arrivals h j
  have hafter := unsettled_course arrivals h (j + 1)
  constructor
  · rintro ⟨hnone, r, hr⟩
    have hearlier := hbefore.mp (Except.ok.inj hnone)
    refine ⟨Classical.byContradiction fun hnot => ?_, hearlier⟩
    have hstill := hafter.mpr (Nat.forall_lt_succ_right.mpr ⟨hearlier, hnot⟩)
    exact absurd (hstill.symm.trans (Except.ok.inj hr)) nofun
  · rintro ⟨hfalls, hearlier⟩
    refine ⟨congrArg Except.ok (hbefore.mpr hearlier), ?_⟩
    cases hr : (course (∅ : Ledger) arrivals (j + 1)).2.settlements.get? id with
    | none => exact absurd hfalls (hafter.mp hr j j.lt_succ_self)
    | some r => exact ⟨r, congrArg Except.ok hr⟩

theorem settlesOnce (id : BillId) : SettlesOnce (∅ : Ledger) arrivals id where
  arises n bill hb := exists_stores arrivals (Except.ok.inj hb)
  settled i bill h j := settles_iff arrivals h j
  once := by
    intro j j' hj hj'
    obtain ⟨r, hr⟩ := hj.2
    obtain ⟨bill, hb⟩ := (sound_course arrivals (j + 1)).scheduled.settled id r (Except.ok.inj hr)
    obtain ⟨i, _, hstores⟩ := exists_stores arrivals hb
    exact ((settles_iff arrivals hstores j).mp hj).unique ((settles_iff arrivals hstores j').mp hj')
  final := by
    intro n r hr m hm
    have hr := Except.ok.inj hr
    have hfollows := follows_course arrivals hm
    obtain ⟨bill, hb⟩ := (sound_course arrivals n).scheduled.settled id r hr
    refine ⟨congrArg Except.ok (hfollows.settlements id r hr), ?_, ?_⟩
    · exact congrArg Except.ok ((hfollows.bills id bill hb).trans hb.symm)
    · exact congrArg (fun m => Except.ok m.entries) (hfollows.ballots id r hr)

end Course

end Ledger

/-- A database and a ledger that it holds take the same course. -/
theorem Database.mirrors_course (arrivals : Nat → Arrival) (n : Nat) :
    (course (∅ : Ledger) arrivals n).1 = (course opened arrivals n).1 ∧
      Mirrors (course ∅ arrivals n).2 (course opened arrivals n).2 := by
  induction n with
  | zero => exact ⟨rfl, mirrors_opened⟩
  | succ n ih =>
    obtain ⟨happlicant, hm⟩ := ih
    obtain ⟨_, happlicant', hm'⟩ := hm.apply (arrivals n).fees
      ((arrivals n).applicant (course opened arrivals n).1) (arrivals n).block (arrivals n).coins
    unfold course Arrival.apply
    rw [happlicant]
    exact ⟨happlicant', hm'⟩

theorem Database.settlesOnce (arrivals : Nat → Arrival) (id : BillId) :
    SettlesOnce opened arrivals id := by
  have halike (n : Nat) := (mirrors_course arrivals n).2.alike
  have hstores : Stores opened arrivals id = Stores (∅ : Ledger) arrivals id := by
    funext i bill
    simp only [Stores, (halike _).bill?]
  have hsettles : Settles opened arrivals id = Settles (∅ : Ledger) arrivals id := by
    funext j
    simp only [Settles, (halike _).settlement?]
  have hfalls : Falls opened arrivals = Falls (∅ : Ledger) arrivals := by
    funext i bill j
    obtain ⟨happlicant, hm⟩ := mirrors_course arrivals j
    have hresult := (hm.apply (arrivals j).fees
      ((arrivals j).applicant (course opened arrivals j).1) (arrivals j).block (arrivals j).coins).1
    simp only [Falls, Arrival.Enters, Arrival.apply, happlicant, hresult]
  obtain ⟨arises, settled, once, final⟩ := Ledger.settlesOnce arrivals id
  constructor
  · simpa only [hstores, (halike _).bill?] using arises
  · simpa only [hstores, hsettles, hfalls] using settled
  · simpa only [hsettles] using once
  · simpa only [(halike _).settlement?, (halike _).bill?, (halike _).ballots] using final

namespace Chain

/-- Whatever blocks come to a new store, in every state on the way every bill awaits its settlement
or has come out, and each is settled once, by the first block that falls to it. -/
theorem bills_settle_once (k : Backend) :
    (∀ s : k.Store, Visited k.opened s → BillsStand s) ∧
      ∀ (arrivals : Nat → Arrival) (id : BillId), SettlesOnce k.opened arrivals id := by
  cases k with
  | memory =>
    refine ⟨fun l h => ?_, Ledger.settlesOnce⟩
    obtain ⟨hsound, htallied⟩ := Ledger.invariant_tallied.visited h
    exact htallied.billsStand hsound.scheduled
  | tables =>
    refine ⟨fun db h => ?_, Database.settlesOnce⟩
    obtain ⟨l, hl, hm⟩ := Database.exists_mirrors_of_visited h
    obtain ⟨hsound, htallied⟩ := Ledger.invariant_tallied.visited hl
    exact hm.alike.billsStand (htallied.billsStand hsound.scheduled)

/-- A committee submits a bill and votes on it; then two empty blocks come, half a day and two days
later. -/
def referendum : Nat → Arrival
  | 0 =>
    let sender : KeyId := ⟨.fill 20 1⟩
    let payload (op : Operation) : Bytes := (Payload.bytesOf op).1 :: (Payload.bytesOf op).2
    ⟨false, .flat 0, ⟨1, 0, [⟨0, payload (.registerCommittee "council" ""), sender, 0⟩,
      ⟨1, payload (.submitBill ⟨"Budget", "", "", 1, ["yes", "no"]⟩), sender, 0⟩,
      ⟨2, payload (.voteBill (.ofTitle "Budget") 1), sender, 0⟩]⟩, ∅⟩
  | 1 => ⟨false, .flat 0, ⟨2, 43200, []⟩, ∅⟩
  | n + 2 => ⟨false, .flat 0, ⟨UInt64.ofNat n + 3, 172800, []⟩, ∅⟩

theorem bills_settle_once_after_referendum :
    let l := (course (∅ : Ledger) referendum 3).2
    Visited (∅ : Ledger) l ∧ BillsStand l ∧ Settles (∅ : Ledger) referendum (.ofTitle "Budget") 2 ∧
      SettlesOnce (∅ : Ledger) referendum (.ofTitle "Budget") := by
  intro l
  have hruns : (course (∅ : Ledger) referendum 2).2.settlements.get? (.ofTitle "Budget") = none ∧
      (l.settlements.get? (.ofTitle "Budget")).isSome := by
    decide +kernel
  obtain ⟨r, hr⟩ := Option.isSome_iff_exists.mp hruns.2
  have hvisited : Visited (∅ : Ledger) l := .reached (reached_course ∅ referendum 3)
  obtain ⟨hstand, honce⟩ := bills_settle_once .memory
  exact ⟨hvisited, hstand l hvisited, ⟨congrArg Except.ok hruns.1, r, congrArg Except.ok hr⟩,
    honce referendum (.ofTitle "Budget")⟩

end Chain

end CivicLedger
