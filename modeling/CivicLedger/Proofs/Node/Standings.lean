import CivicLedger.Gateway.Question
import CivicLedger.Proofs.Chain.History
import CivicLedger.Proofs.Node.Copies

/-!
# How finished bills stand

A bill whose window has closed is answered as finished before it is settled, with the tally of its
votes by the coins that are recorded, and from then on as it was settled. The block that settles it
weighs the same votes by the same coins, so that no answer about a finished bill is taken back.
-/

namespace CivicLedger

open Chain Gateway

def billAnswer {σ : Type} [LedgerReads σ] (s : σ) (p : Arguments) : Answer Json :=
  Question.answer s "getbill" p

def Json.state (answer : Json) (name : String) : Json := (answer.get "state").get name

/-- The state of a bill, the height of its settlement aside. -/
def outcomeFields : List String :=
  ["finished", "passed", "option_index", "total_vote", "option_totals"]

def KeepsOutcomes (earlier later : Arguments → Answer Json) : Prop :=
  ∀ p before, earlier p = .ok before → before.state "finished" = .flag true →
    ∃ after, later p = .ok after ∧ ∀ name ∈ outcomeFields, after.state name = before.state name

def BillStanding.reported (s : BillStanding) : Bool × Bool × Option UInt8 × UInt64 × List UInt64 :=
  (s.finished, s.passed, s.winner, s.total, s.totals)

theorem state_of_reported {s s' : BillStanding} (h : s'.reported = s.reported)
    (now now' : Timestamp) (bill : Bill) :
    ∀ name ∈ outcomeFields, (Body.bill now' (bill, s')).state name =
      (Body.bill now (bill, s)).state name := by
  obtain ⟨finished, passed, winner, total, totals, settledAt⟩ := s
  obtain ⟨finished', passed', winner', total', totals', settledAt'⟩ := s'
  simp only [BillStanding.reported, Prod.mk.injEq] at h
  obtain ⟨rfl, rfl, rfl, rfl, rfl⟩ := h
  intro name hname
  simp only [outcomeFields, List.mem_cons, List.not_mem_nil, or_false] at hname
  rcases hname with rfl | rfl | rfl | rfl | rfl <;> rfl

namespace Ledger

open SortedMap

variable {l l' : Ledger}

def vantage (l : Ledger) : ChainPoint :=
  match l.synced with
  | some point => point
  | none => ⟨(l.cursor.map Cursor.height).getD 0, 0⟩

theorem pin_eq (l : Ledger) : Survey.pin l = .ok ⟨l, l.coinBalances, l.vantage⟩ := by
  have hsynced : LedgerReads.synced? l = .ok l.synced := rfl
  have hcursor : LedgerReads.cursor? l = .ok l.cursor := rfl
  have hcoins : LedgerReads.coinBalances l = .ok l.coinBalances.entries := rfl
  unfold Survey.pin vantage
  rw [hsynced, hcursor, hcoins]
  cases l.synced with
  | none => exact congrArg (fun coins => Except.ok (Survey.mk l coins _)) (ofList_entries _)
  | some point => exact congrArg (fun coins => Except.ok (Survey.mk l coins _)) (ofList_entries _)

def liveTally (l : Ledger) (bill : Bill) : Tally :=
  Tally.ofVotes bill.options.length
    ((l.ballots.within bill.id).map fun v => (v.2.choice, Coins.balance l.coinBalances v.1))

def standing (l : Ledger) (bill : Bill) : BillStanding :=
  match l.settlements.get? bill.id with
  | some s => ⟨true, s.passed, s.winner, s.total, s.totals, some s.height⟩
  | none =>
    let t := l.liveTally bill
    ⟨bill.isClosedAt l.vantage.time, t.passed, t.winner, t.total, t.totals, none⟩

theorem billStanding_eq (l : Ledger) (bill : Bill) :
    Survey.billStanding ⟨l, l.coinBalances, l.vantage⟩ bill = .ok (l.standing bill) := by
  have hread : (Survey.mk l l.coinBalances l.vantage).ask (LedgerReads.settlement? · bill.id) =
      .ok (l.settlements.get? bill.id) := rfl
  unfold Survey.billStanding standing
  rw [hread]
  cases l.settlements.get? bill.id <;> rfl

theorem billAnswer_eq (l : Ledger) (p : Arguments) :
    billAnswer l p = (Arguments.bill p 0).map fun id =>
      Interchange.ofOption (Body.bill l.vantage.time)
        ((l.bills.get? id).map fun bill => (bill, l.standing bill)) := by
  have hname : Question.ofName? "getbill" = some .getBill := by decide
  have hbill (id : BillId) : Survey.bill ⟨l, l.coinBalances, l.vantage⟩ id =
      .ok ((l.bills.get? id).map fun bill => (bill, l.standing bill)) := by
    have hread : (Survey.mk l l.coinBalances l.vantage).ask (LedgerReads.bill? · id) =
        .ok (l.bills.get? id) := rfl
    unfold Survey.bill
    rw [hread]
    cases l.bills.get? id with
    | none => rfl
    | some bill =>
      have hstanding := billStanding_eq l bill
      simp only [Survey.withStanding, bind, Except.bind, hstanding]
      rfl
  unfold billAnswer Question.answer
  rw [pin_eq, hname]
  simp only [Question.ask]
  cases Arguments.bill p 0 with
  | error fault => rfl
  | ok id =>
    simp only [bind, Except.bind, hbill]
    rfl

def Upholds (l l' : Ledger) : Prop :=
  ∀ id bill, l.bills.get? id = some bill → (l.standing bill).finished = true →
    l'.bills.get? id = some bill ∧ (l'.standing bill).reported = (l.standing bill).reported

theorem Upholds.trans {l'' : Ledger} (h : l.Upholds l') (h' : l'.Upholds l'') : l.Upholds l'' := by
  intro id bill hb hfinished
  obtain ⟨hb', hsame⟩ := h id bill hb hfinished
  have hstill : (l'.standing bill).finished = true := (congrArg Prod.fst hsame).trans hfinished
  obtain ⟨hb'', hsame'⟩ := h' id bill hb' hstill
  exact ⟨hb'', hsame'.trans hsame⟩

theorem Upholds.keepsOutcomes (h : l.Upholds l') :
    KeepsOutcomes (billAnswer l) (billAnswer l') := by
  intro p before hbefore hfinished
  rw [billAnswer_eq] at hbefore
  cases hid : Arguments.bill p 0 with
  | error fault =>
    rw [hid] at hbefore
    cases hbefore
  | ok id =>
    simp only [hid, Except.map] at hbefore
    cases hb : l.bills.get? id with
    | none =>
      rw [hb] at hbefore
      cases hbefore
      cases hfinished
    | some bill =>
      rw [hb] at hbefore
      cases hbefore
      have hfin : (l.standing bill).finished = true := Json.flag.inj hfinished
      obtain ⟨hb', hsame⟩ := h id bill hb hfin
      refine ⟨Body.bill l'.vantage.time (bill, l'.standing bill), ?_, ?_⟩
      · rw [billAnswer_eq, hid]
        simp only [Except.map, hb']
        rfl
      · exact state_of_reported hsame _ _ bill

theorem standing_of_settled {bill : Bill} {s : Settlement}
    (h : l.settlements.get? bill.id = some s) :
    l.standing bill = ⟨true, s.passed, s.winner, s.total, s.totals, some s.height⟩ := by
  unfold standing
  rw [h]

theorem standing_of_open {bill : Bill} (h : l.settlements.get? bill.id = none) :
    let t := l.liveTally bill
    l.standing bill =
      ⟨bill.isClosedAt l.vantage.time, t.passed, t.winner, t.total, t.totals, none⟩ := by
  unfold standing
  rw [h]

/-- A bill that is finished has been settled, or is due where questions are answered. -/
theorem Scheduled.settled_or_due (h : l.Scheduled) {id : BillId} {bill : Bill}
    (hb : l.bills.get? id = some bill) (hfinished : (l.standing bill).finished = true) :
    (∃ s, l.settlements.get? id = some s) ∨ id ∈ l.billsDue l.vantage.time := by
  cases hs : l.settlements.get? id with
  | some s => exact .inl ⟨s, rfl⟩
  | none =>
    right
    rw [h.mem_billsDue_iff hb]
    have hid := h.ids id bill hb
    rw [← hid] at hs
    rw [standing_of_open hs] at hfinished
    exact ⟨of_decide_eq_true hfinished, hid ▸ hs⟩

/-- Where nothing is due, whatever follows upholds what is reported. -/
theorem Scheduled.upholds_of_quiet (h : l.Scheduled) (hquiet : l.billsDue l.vantage.time = [])
    (hfollows : l.Follows l') : l.Upholds l' := by
  intro id bill hb hfinished
  refine ⟨hfollows.bills id bill hb, ?_⟩
  rcases h.settled_or_due hb hfinished with ⟨s, hs⟩ | hdue
  · rw [← h.ids id bill hb] at hs
    rw [standing_of_settled hs, standing_of_settled (hfollows.settlements bill.id s hs)]
  · rw [hquiet] at hdue
    cases hdue

/-- While a block settles bills, one of them has the votes that the block found and is not settled,
or it has come out with these votes. -/
structure Treated (l : Ledger) (b : Block) (coins : Coins) (id : BillId) (bill : Bill)
    (m : Ledger) : Prop where
  stored : m.bills.get? id = some bill
  votes : m.settlements.get? id = none ∧ m.ballots.part id = l.ballots.part id ∨
    m.settlements.get? id = some (l.outcome b coins bill id)

section

variable {b : Block} {coins : Coins} {id : BillId} {bill : Bill}

theorem Treated.closed {m : Ledger} {other : BillId} {bill' : Bill}
    (h : Treated l b coins id bill m) (hother : m.bills.get? other = some bill')
    (hopen : m.settlements.get? other = none) :
    Treated l b coins id bill (m.closed b coins other) := by
  constructor
  · rw [bills_closed]
    exact h.stored
  by_cases he : id = other
  · subst he
    right
    rcases h.votes with ⟨_, hvotes⟩ | hsettled
    · have hwithin : m.ballots.within id = l.ballots.within id := congrArg entries hvotes
      have hsame : m.outcome b coins bill id = l.outcome b coins bill id := by
        rw [outcome_eq, outcome_eq, hwithin]
      rw [closed_eq h.stored, ← hsame]
      exact get?_insert_self ..
    · rw [hopen] at hsettled
      cases hsettled
  · rw [settlements_closed_ne m b coins he, part_ballots_closed_ne hother he]
    exact h.votes

/-- A block settles every bill that is due with the votes that it found. -/
theorem Scheduled.settlements_settledAll (h : l.Scheduled) (hb : l.bills.get? id = some bill)
    (hdue : id ∈ l.billsDue b.time) :
    (l.settledAll b coins).settlements.get? id = some (l.outcome b coins bill id) := by
  have htreated : Treated l b coins id bill (l.settledAll b coins) :=
    h.settledAll_induction b coins ⟨hb, .inl ⟨(h.due_stored hdue).2, rfl⟩⟩
      fun m other bill' hm hother hopen _ => hm.closed hother hopen
  rcases htreated.votes with ⟨hopen, _⟩ | hsettled
  · have hstill := (h.settledAll b coins).mem_billsDue_iff htreated.stored b.time
    have hcloses := ((h.mem_billsDue_iff hb b.time).mp hdue).1
    rw [h.billsDue_settledAll] at hstill
    exact absurd (hstill.mpr ⟨hcloses, hopen⟩) List.not_mem_nil
  · exact hsettled

end

/-- A block whose balances have just been recorded settles bills as they were reported. -/
theorem Sound.upholds_entered (h : l.Sound) {b : Block} (htime : l.vantage.time = b.time)
    (cursor : Option Cursor) : l.Upholds (l.entered b l.coinBalances cursor) := by
  have hfollows := ((stable_follows l).entered h (.refl l) b l.coinBalances cursor).2
  intro id bill hb hfinished
  refine ⟨hfollows.bills id bill hb, ?_⟩
  have hid := h.scheduled.ids id bill hb
  rcases h.scheduled.settled_or_due hb hfinished with ⟨s, hs⟩ | hdue
  · rw [← hid] at hs
    rw [standing_of_settled hs, standing_of_settled (hfollows.settlements bill.id s hs)]
  · have hopen := (h.scheduled.due_stored hdue).2
    rw [htime] at hdue
    have hsettled : (l.entered b l.coinBalances cursor).settlements.get? id =
        some (l.outcome b l.coinBalances bill id) := by
      unfold Ledger.entered
      split <;> exact h.scheduled.settlements_settledAll hb hdue
    rw [← hid] at hopen hsettled
    rw [standing_of_open hopen] at hfinished ⊢
    rw [standing_of_settled hsettled, outcome_eq]
    exact congrArg (fun closed : Bool => (closed, _)) hfinished.symm

end Ledger

theorem Alike.pin_ledger {τ : Type} [LedgerReads τ] {l : Ledger} {t : τ} (h : Alike l t) :
    Survey.pin t = .ok ⟨t, l.coinBalances, l.vantage⟩ := by
  rw [h.pin, l.pin_eq]
  rfl

/-- Stores that are read alike give the same answers about bills. -/
theorem Alike.billAnswer {τ : Type} [LedgerReads τ] {l : Ledger} {t : τ} (h : Alike l t) :
    billAnswer t = billAnswer l := by
  have hname : Question.ofName? "getbill" = some .getBill := by decide
  have hbill (id : BillId) : (Survey.mk t l.coinBalances l.vantage).bill id =
      (Survey.mk l l.coinBalances l.vantage).bill id := by
    simp only [Survey.bill, Survey.withStanding, Survey.billStanding, Survey.liveTally, Survey.ask,
      h.bill?, h.settlement?, h.ballots]
  funext p
  unfold CivicLedger.billAnswer Question.answer
  rw [l.pin_eq, h.pin_ledger, hname]
  simp only [Question.ask, hbill]

end CivicLedger
