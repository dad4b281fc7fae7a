import Mathlib.Data.List.Forall2
import CivicLedger.Proofs.Node.Standings
import CivicLedger.Proofs.Node.Submission

/-!
# What is said of a voting window

A bill is answered with what is left of its window and with whether it is finished, and a vote on it
is refused once it is finished. The three agree at every state of a node as long as the time that
questions are answered at is not before the time at which the bill was settled. Where a later block
comes with an earlier time, a settled bill is still finished and takes no votes, but its window is
said to be open again.
-/

namespace CivicLedger

open Chain Program Gateway

theorem describeWindow_eq_closed_iff {close now : Timestamp} :
    describeWindow close now = "closed" ↔ close ≤ now := by
  unfold describeWindow
  split
  · next hlt =>
    have hopen : "closes in " ++ describeDuration (close - now) ≠ "closed" := by
      intro heq
      have hsixth := congrArg (fun s : String => s.toList[5]?) heq
      simp only [String.toList_append] at hsixth
      rw [List.getElem?_append_left (by decide)] at hsixth
      exact absurd hsixth (by decide)
    exact iff_of_false hopen (UInt64.not_le.mpr hlt)
  · next hle => exact iff_of_true rfl (UInt64.not_lt.mp hle)

section

variable {σ : Type} [LedgerReads σ]

/-- What is answered of a stored bill at a point of the chain agrees with what becomes there of a
vote for one of its options by somebody who has not voted, and so does its window unless the bill
was settled later than that point. -/
structure WindowTold (s : σ) (point : ChainPoint) (id : BillId) (bill : Bill) (told : Json) :
    Prop where
  votes : ∀ sender choice, choice.toNat < bill.options.length →
    LedgerReads.ballot? s id sender = .ok none →
    (told.state "finished" = .flag true ↔
      assess s point sender (.voteBill id choice) = Admission.refuse (.billFinished id))
  window : (∀ settled, LedgerReads.settlement? s id = .ok (some settled) →
      settled.time ≤ point.time) →
    (told.get "window" = .text "closed" ↔ told.state "finished" = .flag true)
  closed : told.get "window" = .text "closed" → told.state "finished" = .flag true

structure WindowsTold (s : σ) (point : ChainPoint) : Prop where
  one : ∀ p id, Arguments.bill p 0 = .ok id → ∃ found told,
    LedgerReads.bill? s id = .ok found ∧ Question.answer s "getbill" p = .ok told ∧
      match found with
      | none => told = .null
      | some bill => WindowTold s point id bill told
  all : ∀ p, ∃ bills told, LedgerReads.bills s = .ok bills ∧
    Question.answer s "listbills" p = .ok (.array told) ∧
    List.Forall₂ (fun bill answer => WindowTold s point bill.id bill answer) bills told

end

namespace Ledger

open SortedMap

variable {l l' : Ledger} {point : ChainPoint}

def SettledInTime (l : Ledger) : Prop :=
  ∀ id bill s, l.bills.get? id = some bill → l.settlements.get? id = some s → bill.closes ≤ s.time

/-- Bills that are submitted later are not settled yet. -/
theorem SettledInTime.follows (h : l.SettledInTime) (hs : l.Scheduled) (hfollows : l.Follows l')
    (hsame : l'.settlements = l.settlements) : l'.SettledInTime := by
  intro id bill s hb hsettled
  rw [hsame] at hsettled
  obtain ⟨bill', hbill'⟩ := hs.settled id s hsettled
  rw [hfollows.bills id bill' hbill'] at hb
  cases hb
  exact h id bill s hbill' hsettled

theorem SettledInTime.closed (h : l.SettledInTime) {b : Block} (coins : Coins) {id : BillId}
    {bill : Bill} (hb : l.bills.get? id = some bill) (hcloses : bill.closes ≤ b.time) :
    (l.closed b coins id).SettledInTime := by
  intro other bill' s hb' hsettled
  rw [bills_closed] at hb'
  by_cases he : other = id
  · subst he
    rw [hb] at hb'
    cases hb'
    rw [closed_eq hb, get?_insert_self] at hsettled
    cases hsettled
    exact hcloses
  · rw [settlements_closed_ne l b coins he] at hsettled
    exact h other bill' s hb' hsettled

theorem stable_settledInTime : Stable SettledInTime where
  enact := by
    intro l point sender op effect hs h ha _
    have hsame := settlements_enact l effect
    exact h.follows hs.scheduled (ha.balloting.follows hsame) hsame
  closed := by
    intro l b coins id bill _ h hb _ hcloses
    exact h.closed coins hb hcloses
  cursor _ h := h

/-- A vote for an option, by somebody who has not voted, is refused where the bill is finished and
admitted anywhere else. -/
theorem admitBallot_eq {id : BillId} {bill : Bill} (hb : l.bills.get? id = some bill)
    {sender : KeyId} {choice : UInt8} (hchoice : choice.toNat < bill.options.length)
    (hfresh : l.ballots.get? (id, sender) = none) :
    Rules.admitBallot l point sender id choice =
      if bill.closes ≤ point.time ∨ (l.settlements.get? id).isSome then
        Admission.refuse (.billFinished id)
      else .ok (.voteBill id sender choice) := by
  by_cases hcloses : bill.closes ≤ point.time
  · rw [admitBallot_of_closed hb hcloses, if_pos (.inl hcloses)]
  · have hopen : bill.isClosedAt point.time = false := decide_eq_false hcloses
    have hnotFull : ¬ bill.options.length ≤ choice.toNat := Nat.not_le.mpr hchoice
    cases hsettled : l.settlements.get? id with
    | some s =>
      simp only [Rules.admitBallot, LedgerReads.bill?, LedgerReads.settlement?, Admission.read, hb,
        Admission.ok_bind, hopen, hsettled, Option.isSome_some, Bool.false_eq_true, if_false,
        if_true, Admission.refuse_bind, or_true]
    | none =>
      simp only [Rules.admitBallot, LedgerReads.bill?, LedgerReads.settlement?,
        LedgerReads.ballot?, Admission.read, hb, Admission.ok_bind, hopen, hsettled, hfresh,
        hcloses, hnotFull, Option.isSome_none, Bool.false_eq_true, if_false, or_self]
      rfl

theorem finished_standing (l : Ledger) (bill : Bill) :
    (l.standing bill).finished = true ↔
      bill.closes ≤ l.vantage.time ∨ (l.settlements.get? bill.id).isSome = true := by
  cases hsettled : l.settlements.get? bill.id with
  | some s =>
    rw [standing_of_settled hsettled]
    exact iff_of_true rfl (.inr rfl)
  | none =>
    rw [standing_of_open hsettled]
    simp only [Option.isSome_none, Bool.false_eq_true, or_false]
    exact decide_eq_true_iff

/-- A stored bill is told of as a vote on it would fare. -/
theorem windowTold (hin : l.SettledInTime) {id : BillId} {bill : Bill}
    (hid : bill.id = id) (hb : l.bills.get? id = some bill) :
    WindowTold l l.vantage id bill (Body.bill l.vantage.time (bill, l.standing bill)) := by
  have hstate : (Body.bill l.vantage.time (bill, l.standing bill)).state "finished" =
      .flag (l.standing bill).finished := rfl
  have htext : (Body.bill l.vantage.time (bill, l.standing bill)).get "window" =
      .text (describeWindow bill.closes l.vantage.time) := rfl
  have hfinished : (Body.bill l.vantage.time (bill, l.standing bill)).state "finished" = .flag true ↔
      bill.closes ≤ l.vantage.time ∨ (l.settlements.get? id).isSome = true := by
    rw [hstate, ← hid, ← finished_standing, Json.flag.injEq]
  have hwindow : (Body.bill l.vantage.time (bill, l.standing bill)).get "window" = .text "closed" ↔
      bill.closes ≤ l.vantage.time := by
    rw [htext, Json.text.injEq, describeWindow_eq_closed_iff]
  constructor
  · intro sender choice hchoice hfresh
    have hassess : assess l l.vantage sender (.voteBill id choice) =
        Rules.admitBallot l l.vantage sender id choice := rfl
    rw [hfinished, hassess, admitBallot_eq hb hchoice (Except.ok.inj hfresh)]
    split
    · next hover => exact iff_of_true hover rfl
    · next hopen => exact iff_of_false hopen nofun
  · intro htimes
    rw [hwindow, hfinished]
    refine ⟨.inl, ?_⟩
    rintro (hcloses | hsettled)
    · exact hcloses
    · obtain ⟨s, hs⟩ := Option.isSome_iff_exists.mp hsettled
      exact UInt64.le_trans (hin id bill s hb hs) (htimes s (congrArg Except.ok hs))
  · rw [hwindow, hfinished]
    exact .inl

theorem listBills_eq (l : Ledger) :
    Survey.listBills ⟨l, l.coinBalances, l.vantage⟩ =
      .ok (l.bills.values.map fun bill => (bill, l.standing bill)) := by
  have hstanding : Survey.withStanding ⟨l, l.coinBalances, l.vantage⟩ =
      fun bill => pure (bill, l.standing bill) := by
    funext bill
    have h := billStanding_eq l bill
    simp only [Survey.withStanding, bind, Except.bind, h]
  have hbills : (Survey.mk l l.coinBalances l.vantage).ask LedgerReads.bills =
      .ok l.bills.values := rfl
  unfold Survey.listBills
  rw [hbills, hstanding]
  exact List.mapM_pure

theorem windowsTold (hs : l.Scheduled) (hin : l.SettledInTime) : WindowsTold l l.vantage := by
  constructor
  · intro p id hid
    have hanswer := billAnswer_eq l p
    rw [hid] at hanswer
    refine ⟨l.bills.get? id, Interchange.ofOption (Body.bill l.vantage.time)
      ((l.bills.get? id).map fun bill => (bill, l.standing bill)), rfl, hanswer, ?_⟩
    cases hb : l.bills.get? id with
    | none => rfl
    | some bill => exact windowTold hin (hs.ids id bill hb) hb
  · intro p
    have hname : Question.ofName? "listbills" = some .listBills := by decide
    have hanswer : Question.answer l "listbills" p =
        .ok (.array (l.bills.values.map fun bill =>
          Body.bill l.vantage.time (bill, l.standing bill))) := by
      unfold Question.answer
      rw [pin_eq, hname]
      simp only [Question.ask, listBills_eq, Question.tell]
      unfold Interchange.ofList
      rw [List.map_map]
      rfl
    refine ⟨_, _, rfl, hanswer, ?_⟩
    rw [List.forall₂_map_right_iff, List.forall₂_same]
    intro bill hbill
    obtain ⟨id, hb⟩ := mem_values.mp hbill
    rw [hs.ids id bill hb]
    exact windowTold hin (hs.ids id bill hb) hb

end Ledger

section

variable {τ : Type} [LedgerReads τ] {l : Ledger} {t : τ} {point : ChainPoint}

theorem Alike.windowTold (h : Alike l t) {id : BillId} {bill : Bill} {told : Json}
    (hl : WindowTold l point id bill told) : WindowTold t point id bill told where
  votes sender choice hchoice hfresh := by
    rw [← h.assess]
    exact hl.votes sender choice hchoice ((h.ballot? id sender).trans hfresh)
  window htimes := hl.window fun s hs => htimes s ((h.settlement? id).symm.trans hs)
  closed := hl.closed

theorem Alike.listBillsAnswer (h : Alike l t) (p : Arguments) :
    Question.answer t "listbills" p = Question.answer l "listbills" p := by
  have hname : Question.ofName? "listbills" = some .listBills := by decide
  have hbills : (Survey.mk t l.coinBalances l.vantage).listBills =
      (Survey.mk l l.coinBalances l.vantage).listBills := by
    have hstanding : (Survey.mk t l.coinBalances l.vantage).withStanding =
        (Survey.mk l l.coinBalances l.vantage).withStanding := by
      funext bill
      simp only [Survey.withStanding, Survey.billStanding, Survey.liveTally, Survey.ask,
        h.settlement?, h.ballots]
    simp only [Survey.listBills, Survey.ask, h.bills, hstanding]
  unfold Question.answer
  rw [l.pin_eq, h.pin_ledger, hname]
  simp only [Question.ask, hbills]

theorem Alike.windowsTold (h : Alike l t) (hl : WindowsTold l point) : WindowsTold t point where
  one p id hid := by
    obtain ⟨found, told, hfound, hanswer, htold⟩ := hl.one p id hid
    refine ⟨found, told, (h.bill? id).symm.trans hfound,
      (congrFun h.billAnswer p).trans hanswer, ?_⟩
    cases found with
    | none => exact htold
    | some bill => exact h.windowTold htold
  all p := by
    obtain ⟨bills, told, hbills, hanswer, htold⟩ := hl.all p
    exact ⟨bills, told, h.bills.symm.trans hbills, (h.listBillsAnswer p).trans hanswer,
      htold.imp fun _ _ hone => h.windowTold hone⟩

end

namespace Node

/-- Whatever updates a node takes over a new store, in whatever order the times of the blocks come:
a bill is answered as finished exactly where a vote on it would be refused for that, and its window
as closed exactly where it is finished, unless it was settled later than what is answered. -/
theorem windows_told {k : Backend} {n : Node k.Store} (h : Lived k.opened n) :
    ∃ v, Survey.pin n.store = .ok v ∧ WindowsTold n.store v.point := by
  have hledger {n : Node Ledger} (h : Lived ∅ n) : WindowsTold n.store n.store.vantage := by
    have hnone : Ledger.SettledInTime ∅ := fun _ _ _ => nofun
    obtain ⟨hsound, hin⟩ :=
      invariant_of_lived Ledger.stable_settledInTime hnone (fun _ _ h => h) h
    exact Ledger.windowsTold hsound.scheduled hin
  cases k with
  | memory => exact ⟨_, n.store.pin_eq, hledger h⟩
  | tables =>
    obtain ⟨m, hm, hshadows⟩ := exists_shadows_of_lived h
    have halike := hshadows.store.alike
    exact ⟨_, halike.pin_ledger, halike.windowsTold (hledger hm)⟩

def windowReported {σ : Type} [LedgerReads σ] (s : σ) (id : BillId) :
    Option (Option String × Option Bool) :=
  (billAnswer s [.text id.text]).toOption.map fun told =>
    ((told.get "window").text?, (told.state "finished").flag?)

/-- A council submits a bill for one day; it is settled a day after that. -/
theorem windows_told_after_settlement :
    let council : KeyId := ⟨.fill 20 1⟩
    let payload (op : Operation) : Bytes := (Payload.bytesOf op).1 :: (Payload.bytesOf op).2
    let u : Update := ⟨⟨1, 0, [⟨0, payload (.registerCommittee "council" ""), council, 0⟩,
      ⟨1, payload (.submitBill ⟨"Budget", "", "", 1, ["yes", "no"]⟩), council, 0⟩]⟩, []⟩
    let v : Update := ⟨⟨2, 172800, []⟩, []⟩
    let n := (deliver (.flat 0) (start ∅) u).node
    let m := (deliver (.flat 0) n v).node
    Lived (∅ : Ledger) m ∧
      windowReported n.store (.ofTitle "Budget") = some (some "closes in 1d 0h", some false) ∧
      windowReported m.store (.ofTitle "Budget") = some (some "closed", some true) ∧
      ∃ x, Survey.pin m.store = .ok x ∧ WindowsTold m.store x.point := by
  intro council payload u v n m
  have hlived : Lived (∅ : Ledger) m :=
    .took (.flat 0) v (.took (.flat 0) u (.opened (restore_opened .memory)))
  have hreported :
      windowReported n.store (.ofTitle "Budget") = some (some "closes in 1d 0h", some false) ∧
      windowReported m.store (.ofTitle "Budget") = some (some "closed", some true) := by
    decide +kernel
  exact ⟨hlived, hreported.1, hreported.2, windows_told (k := .memory) hlived⟩

/-- The same bill, after another block that comes from before its end: it is finished and takes no
vote, and its window is said to be open. -/
theorem window_reopened :
    let council : KeyId := ⟨.fill 20 1⟩
    let payload (op : Operation) : Bytes := (Payload.bytesOf op).1 :: (Payload.bytesOf op).2
    let u : Update := ⟨⟨1, 0, [⟨0, payload (.registerCommittee "council" ""), council, 0⟩,
      ⟨1, payload (.submitBill ⟨"Budget", "", "", 1, ["yes", "no"]⟩), council, 0⟩]⟩, []⟩
    let n := [⟨⟨2, 172800, []⟩, []⟩, ⟨⟨3, 43200, []⟩, []⟩].foldl
      (fun n v => (deliver (.flat 0) n v).node) (deliver (.flat 0) (start ∅) u).node
    Lived (∅ : Ledger) n ∧
      windowReported n.store (.ofTitle "Budget") = some (some "closes in 12h 0m", some true) ∧
      n.store.vantage = ⟨3, 43200⟩ ∧
      LedgerReads.ballot? n.store (.ofTitle "Budget") council = .ok none ∧
      assess n.store n.store.vantage council (.voteBill (.ofTitle "Budget") 1) =
        Admission.refuse (.billFinished (.ofTitle "Budget")) := by
  intro council payload u n
  have hlived : Lived (∅ : Ledger) n :=
    .took (.flat 0) _ (.took (.flat 0) _ (.took (.flat 0) u (.opened (restore_opened .memory))))
  exact ⟨hlived, by decide +kernel⟩

end Node

end CivicLedger
