import CivicLedger.Proofs.Chain.Visits

/-!
# The outcomes of bills

Until a bill is settled no vote on it has a weight. When it is settled every vote on it is weighed,
and what is recorded is the tally of the votes as they are stored from then on. Neither the record
nor the votes change any more, since no rule admits a vote on a settled bill and no settled bill is
due.
-/

namespace CivicLedger

open Chain

section

variable {σ : Type} [LedgerReads σ]

structure Awaits (s : σ) (id : BillId) (bill : Bill) : Prop where
  due : ∀ time, Yields (LedgerReads.billsDue s time) fun due => id ∈ due ↔ bill.closes ≤ time
  unweighed : Yields (LedgerReads.ballots s id) fun votes => ∀ v ∈ votes, v.2.weight = none

structure CameOut (s : σ) (id : BillId) (bill : Bill) (r : Settlement) : Prop where
  gone : ∀ time, Yields (LedgerReads.billsDue s time) fun due => id ∉ due
  tallied : Yields (LedgerReads.ballots s id) fun votes => ∃ pairs,
    votes.map (fun v => (v.2.choice, v.2.weight)) = pairs.map (fun p => (p.1, some p.2)) ∧
      Tally.ofVotes bill.options.length pairs = ⟨r.totals, r.total, r.winner, r.passed⟩

/-- Every bill in a store awaits its settlement or has come out. -/
def BillsStand (s : σ) : Prop :=
  ∀ id, Yields (LedgerReads.bill? s id) fun record => ∀ bill, record = some bill →
    Yields (LedgerReads.settlement? s id) fun
      | none => Awaits s id bill
      | some r => CameOut s id bill r

theorem Alike.billsStand {τ : Type} [LedgerReads τ] {s : σ} {t : τ} (h : Alike s t)
    (hs : BillsStand s) : BillsStand t := by
  have hawaits : ∀ id bill, Awaits s id bill → Awaits t id bill := by
    rintro id bill ⟨due, unweighed⟩
    exact ⟨by simpa only [h.billsDue] using due, by simpa only [h.ballots] using unweighed⟩
  have hout : ∀ id bill r, CameOut s id bill r → CameOut t id bill r := by
    rintro id bill r ⟨gone, tallied⟩
    exact ⟨by simpa only [h.billsDue] using gone, by simpa only [h.ballots] using tallied⟩
  intro id
  obtain ⟨record, hread, hrecord⟩ := hs id
  refine ⟨record, h.bill? id ▸ hread, fun bill hb => ?_⟩
  obtain ⟨settlement, hsettlement, hstands⟩ := hrecord bill hb
  refine ⟨settlement, h.settlement? id ▸ hsettlement, ?_⟩
  cases settlement with
  | none => exact hawaits id bill hstands
  | some r => exact hout id bill r hstands

end

namespace Ledger

open SortedMap

variable {l l' : Ledger}

structure Tallied (l : Ledger) : Prop where
  unweighed : ∀ k x, l.ballots.get? k = some x → l.settlements.get? k.1 = none → x.weight = none
  outcome : ∀ id s, l.settlements.get? id = some s → ∃ bill pairs, l.bills.get? id = some bill ∧
    (l.ballots.part id).values.map (fun x => (x.choice, x.weight)) =
      pairs.map (fun p => (p.1, some p.2)) ∧
    Tally.ofVotes bill.options.length pairs = ⟨s.totals, s.total, s.winner, s.passed⟩

structure Follows (l l' : Ledger) : Prop where
  bills : ∀ id bill, l.bills.get? id = some bill → l'.bills.get? id = some bill
  settlements : ∀ id s, l.settlements.get? id = some s → l'.settlements.get? id = some s
  ballots : ∀ id s, l.settlements.get? id = some s → l'.ballots.part id = l.ballots.part id

theorem Follows.refl (l : Ledger) : l.Follows l :=
  ⟨fun _ _ h => h, fun _ _ h => h, fun _ _ _ => rfl⟩

theorem Follows.trans {l'' : Ledger} (h : l.Follows l') (h' : l'.Follows l'') : l.Follows l'' where
  bills id bill hb := h'.bills id bill (h.bills id bill hb)
  settlements id s hs := h'.settlements id s (h.settlements id s hs)
  ballots id s hs := (h'.ballots id s (h.settlements id s hs)).trans (h.ballots id s hs)

theorem tallied_empty : Tallied ∅ where
  unweighed _ _ h := nomatch h
  outcome _ _ h := nomatch h

inductive Balloting (l l' : Ledger) : Prop where
  | kept (bills : l'.bills = l.bills) (ballots : l'.ballots = l.ballots)
  | submitted (b : Bill) (fresh : l.bills.get? b.id = none)
    (bills : l'.bills = l.bills.insert b.id b) (ballots : l'.ballots = l.ballots)
  | cast (id : BillId) (voter : KeyId) (choice : UInt8) (unsettled : l.settlements.get? id = none)
    (bills : l'.bills = l.bills)
    (ballots : l'.ballots = l.ballots.insert (id, voter) ⟨choice, none⟩)

theorem settlements_enact (l : Ledger) (e : Effect) : (l.enact e).settlements = l.settlements := by
  cases e with
  | voteDelegates voter delegates => rw [enact_voteDelegates]
  | revokeDelegates voter delegates => rw [enact_revokeDelegates]
  | createToken t => rw [enact_createToken]
  | transferToken d => rw [enact_transferToken]
  | lockToken d expiry => rw [enact_lockToken]
  | _ => rfl

theorem Admitted.balloting {point : ChainPoint} {sender : KeyId} {op : Operation} {effect : Effect}
    (h : l.Admitted point sender op effect) : l.Balloting (l.enact effect) := by
  cases h with
  | voteDelegates =>
    rw [enact_voteDelegates]
    exact .kept rfl rfl
  | revokeDelegates =>
    rw [enact_revokeDelegates]
    exact .kept rfl rfl
  | submitBill form registered fresh =>
    exact .submitted _ (contains_eq_false.mp fresh) rfl rfl
  | voteBill stored underway unsettled offered fresh => exact .cast _ _ _ unsettled rfl rfl
  | createToken =>
    rw [enact_createToken]
    exact .kept rfl rfl
  | transferToken =>
    rw [enact_transferToken]
    exact .kept rfl rfl
  | lockToken =>
    rw [enact_lockToken]
    exact .kept rfl rfl
  | _ => exact .kept rfl rfl

theorem Balloting.follows (h : l.Balloting l') (hs : l'.settlements = l.settlements) :
    l.Follows l' := by
  refine ⟨?_, fun id s hid => hs ▸ hid, ?_⟩
  · cases h with
    | kept bills _ | cast _ _ _ _ bills _ => exact fun id bill hb => bills ▸ hb
    | submitted b fresh bills _ =>
      intro id bill hb
      rw [bills]
      exact get?_insert_of_free fresh hb
  · intro id s hid
    cases h with
    | kept _ ballots | submitted _ _ _ ballots => rw [ballots]
    | cast id' voter choice unsettled _ ballots =>
      have hne : id ≠ id' := by
        rintro rfl
        rw [unsettled] at hid
        cases hid
      rw [ballots, part_insert_ne _ _ hne]

theorem Balloting.unweighed (h : l.Balloting l') (hs : l'.settlements = l.settlements)
    (hl : l.Tallied) : ∀ k x, l'.ballots.get? k = some x → l'.settlements.get? k.1 = none →
      x.weight = none := by
  rw [hs]
  cases h with
  | kept _ ballots | submitted _ _ _ ballots =>
    rw [ballots]
    exact hl.unweighed
  | cast id voter choice _ _ ballots =>
    rw [ballots]
    exact forall_insert hl.unweighed fun _ => rfl

theorem Tallied.enact {point : ChainPoint} {sender : KeyId} {op : Operation} {effect : Effect}
    (h : l.Tallied) (ha : l.Admitted point sender op effect) : (l.enact effect).Tallied := by
  have hsame := settlements_enact l effect
  have hfollows := ha.balloting.follows hsame
  refine ⟨ha.balloting.unweighed hsame h, ?_⟩
  intro id s hs
  rw [hsame] at hs
  obtain ⟨bill, pairs, hb, hpairs, htally⟩ := h.outcome id s hs
  refine ⟨bill, pairs, hfollows.bills id bill hb, ?_, htally⟩
  rwa [hfollows.ballots id s hs]

section Closed

variable {b : Block} {coins : Coins} {id : BillId} {bill : Bill}

/-- Settling a bill weighs every vote on it. -/
theorem part_ballots_closed (hb : l.bills.get? id = some bill) :
    (l.closed b coins id).ballots.part id =
      (l.ballots.part id).mapValues fun voter x =>
        { x with weight := some (coins.balance voter) } := by
  refine ext fun voter => ?_
  rw [get?_part, get?_ballots_closed hb, get?_mapValues, get?_part]
  simp only [if_true]

theorem part_ballots_closed_ne (hb : l.bills.get? id = some bill) {other : BillId}
    (h : other ≠ id) : (l.closed b coins id).ballots.part other = l.ballots.part other := by
  refine part_congr fun voter => ?_
  rw [get?_ballots_closed hb]
  simp only [h, if_false, Option.map_id']

/-- A bill comes out as the votes on it and the coins of the voters say. -/
theorem outcome_eq (l : Ledger) (b : Block) (coins : Coins) (bill : Bill) (id : BillId) :
    let t := Tally.ofVotes bill.options.length
      ((l.ballots.within id).map fun v => (v.2.choice, coins.balance v.1))
    l.outcome b coins bill id = ⟨t.passed, t.winner, t.total, t.totals, b.height, b.time⟩ := by
  unfold outcome settlementOf weights
  rw [List.zipWith_map_right, List.zipWith_self]

theorem follows_closed (b : Block) (coins : Coins) (hb : l.bills.get? id = some bill)
    (hs : l.settlements.get? id = none) : l.Follows (l.closed b coins id) := by
  have hne : ∀ other s, l.settlements.get? other = some s → other ≠ id := by
    rintro other s hother rfl
    rw [hs] at hother
    cases hother
  refine ⟨fun other x hx => ?_, fun other s hother => ?_, fun other s hother => ?_⟩
  · rwa [bills_closed]
  · rwa [settlements_closed_ne l b coins (hne other s hother)]
  · exact part_ballots_closed_ne hb (hne other s hother)

theorem Tallied.closed (h : l.Tallied) (hb : l.bills.get? id = some bill)
    (hs : l.settlements.get? id = none) : (l.closed b coins id).Tallied := by
  have hsettled : (l.closed b coins id).settlements =
      l.settlements.insert id (l.outcome b coins bill id) := by
    rw [closed_eq hb]
  have hfollows := follows_closed b coins hb hs
  constructor
  -- Votes without a weight are on the bills that are still open, and those were open before.
  · intro k x hx hnone
    have hne : k.1 ≠ id := by
      intro he
      rw [hsettled, he, get?_insert_self] at hnone
      cases hnone
    rw [get?_ballots_closed hb] at hx
    rw [settlements_closed_ne l b coins hne] at hnone
    simp only [hne, if_false, Option.map_id'] at hx
    exact h.unweighed k x hx hnone
  · intro other s hother
    by_cases he : other = id
    · subst he
      rw [hsettled, get?_insert_self, outcome_eq] at hother
      cases hother
      refine ⟨bill, (l.ballots.within other).map fun v => (v.2.choice, coins.balance v.1), ?_, ?_,
        rfl⟩
      · rwa [bills_closed]
      · rw [part_ballots_closed hb]
        simp only [values, mapValues, part, List.map_map, Function.comp_def]
    · rw [settlements_closed_ne l b coins he] at hother
      obtain ⟨x, pairs, hx, hpairs, htally⟩ := h.outcome other s hother
      exact ⟨x, pairs, hfollows.bills other x hx, by rwa [part_ballots_closed_ne hb he], htally⟩

end Closed

theorem invariant_tallied : Invariant Tallied where
  start := tallied_empty
  enact _ h ha _ := h.enact ha
  closed := by
    intro l b coins id bill _ h hb hs _
    exact h.closed hb hs
  cursor _ h := { h with }

/-- Of a stored bill exactly one is there, its entry in the index or its settlement. -/
theorem Scheduled.unsettled_iff (h : l.Scheduled) {id : BillId} {bill : Bill}
    (hb : l.bills.get? id = some bill) :
    l.settlements.get? id = none ↔ l.dueBills.contains (bill.closes, id) = true := by
  constructor
  · exact h.unsettled id bill hb
  · intro hdue
    obtain ⟨_, _, _, hnone⟩ := h.due bill.closes id hdue
    exact hnone

theorem Scheduled.mem_billsDue_iff (h : l.Scheduled) {id : BillId} {bill : Bill}
    (hb : l.bills.get? id = some bill) (time : Timestamp) :
    id ∈ l.billsDue time ↔ bill.closes ≤ time ∧ l.settlements.get? id = none := by
  rw [mem_billsDue, h.unsettled_iff hb]
  constructor
  · rintro ⟨closes, hle, hin⟩
    obtain ⟨bill', hb', rfl, _⟩ := h.due closes id hin
    rw [hb] at hb'
    cases hb'
    exact ⟨hle, hin⟩
  · rintro ⟨hle, hin⟩
    exact ⟨bill.closes, hle, hin⟩

theorem Tallied.billsStand (h : l.Tallied) (hs : l.Scheduled) : BillsStand l := by
  intro id
  refine .of_ok fun bill hb => ?_
  have hdue := hs.mem_billsDue_iff hb
  cases hr : l.settlements.get? id with
  | none =>
    refine ⟨none, congrArg Except.ok hr, ?_, ?_⟩
    · exact fun time => .of_ok ((hdue time).trans (and_iff_left hr))
    · exact .of_ok fun v hv => h.unweighed (id, v.1) v.2 (mem_within.mp hv) hr
  | some r =>
    refine ⟨some r, congrArg Except.ok hr, ?_, ?_⟩
    · intro time
      refine .of_ok fun hin => ?_
      rw [hdue, hr] at hin
      cases hin.2
    · obtain ⟨bill', pairs, hb', hpairs, htally⟩ := h.outcome id r hr
      rw [hb] at hb'
      cases hb'
      refine .of_ok ⟨pairs, ?_, htally⟩
      rw [← hpairs, values, List.map_map]
      rfl

theorem stable_follows (l₀ : Ledger) : Stable l₀.Follows where
  enact := by
    intro l point sender op effect _ h ha _
    exact h.trans (ha.balloting.follows (settlements_enact l effect))
  closed := by
    intro l b coins id bill _ h hb hs _
    exact h.trans (follows_closed b coins hb hs)
  cursor _ h := { h with }

end Ledger

end CivicLedger
