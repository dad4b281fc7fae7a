import CivicLedger.Chain.Apply
import CivicLedger.Proofs.Chain.Enact

/-!
# Settling bills

A bill is due from its entry in the index of due bills until it is settled, and no longer. While the
index is kept so, a block settles every bill that is due at its time, and nothing is due at that
time afterwards.
-/

namespace CivicLedger

open Program Chain

namespace Ledger

open SortedMap

/-- The bills in the index of due bills are those stored under their own ids and not settled, each
by the end of its window. -/
structure Scheduled (l : Ledger) : Prop where
  ids : ∀ id bill, l.bills.get? id = some bill → bill.id = id
  due : ∀ time id, l.dueBills.contains (time, id) = true →
    ∃ bill, l.bills.get? id = some bill ∧ bill.closes = time ∧ l.settlements.get? id = none
  unsettled : ∀ id bill, l.bills.get? id = some bill → l.settlements.get? id = none →
    l.dueBills.contains (bill.closes, id) = true
  settled : ∀ id s, l.settlements.get? id = some s → ∃ bill, l.bills.get? id = some bill

def weights (l : Ledger) (coins : Coins) (id : BillId) : List (KeyId × UInt64) :=
  (l.ballots.within id).map fun vote => (vote.1, coins.balance vote.1)

def outcome (l : Ledger) (b : Block) (coins : Coins) (bill : Bill) (id : BillId) : Settlement :=
  settlementOf b bill (l.ballots.within id) (l.weights coins id)

def closed (l : Ledger) (b : Block) (coins : Coins) (id : BillId) : Ledger :=
  match l.bills.get? id with
  | none => l
  | some bill => { l with
      ballots := weighed id l.ballots (l.weights coins id)
      settlements := l.settlements.insert id (l.outcome b coins bill id)
      dueBills := l.dueBills.erase (bill.closes, id) }

variable {l : Ledger} (b : Block) (coins : Coins)

theorem mem_billsDue {time : Timestamp} {id : BillId} :
    id ∈ l.billsDue time ↔ ∃ closes, closes ≤ time ∧ l.dueBills.contains (closes, id) = true := by
  simp only [billsDue, List.mem_filterMap, contains_eq_true, get?_eq_some_iff]
  constructor
  · rintro ⟨⟨⟨closes, id'⟩, u⟩, he, h⟩
    split at h
    · next hle =>
      cases h
      exact ⟨closes, hle, u, he⟩
    · cases h
  · rintro ⟨closes, hle, u, he⟩
    exact ⟨((closes, id), u), he, if_pos hle⟩

/-- No bill is due twice. -/
theorem Scheduled.nodup_billsDue (h : l.Scheduled) (time : Timestamp) :
    (l.billsDue time).Nodup := by
  unfold billsDue
  rw [List.nodup_iff_pairwise_ne, List.pairwise_filterMap]
  have hmem : ∀ e ∈ l.dueBills.entries, ∃ bill, l.bills.get? e.1.2 = some bill ∧
      bill.closes = e.1.1 := by
    intro e he
    obtain ⟨bill, hb, hcloses, _⟩ := h.due e.1.1 e.1.2 (contains_eq_true.mpr ⟨_, get?_of_mem he⟩)
    exact ⟨bill, hb, hcloses⟩
  refine l.dueBills.ascending.imp_of_mem ?_
  intro e f he hf hlt x hx y hy hxy
  obtain ⟨bill, hb, hcloses⟩ := hmem e he
  obtain ⟨bill', hb', hcloses'⟩ := hmem f hf
  split at hx
  · split at hy
    · cases hx
      cases hy
      rw [hxy, hb'] at hb
      cases hb
      exact KeyOrder.ne_of_before hlt (Prod.ext (hcloses.symm.trans hcloses') hxy)
    · cases hy
  · cases hx

/-- A bill that is stored and not settled is settled with the votes that it has. -/
theorem settleBill_apply {id : BillId} {bill : Bill} (hb : l.bills.get? id = some bill)
    (hs : l.settlements.get? id = none) :
    settleBill b coins id l = .ok (id, l.outcome b coins bill id) (l.closed b coins id) := by
  have hbill : Step.read (LedgerReads.bill? · id) l = .ok (some bill) l :=
    read_of_ok (congrArg Except.ok hb)
  have hvotes : Step.read (LedgerReads.ballots · id) l = .ok (l.ballots.within id) l :=
    read_of_ok rfl
  have hpresent : ∀ e ∈ l.weights coins id, l.ballots.contains (id, e.1) = true := by
    intro e he
    obtain ⟨vote, hvote, rfl⟩ := List.mem_map.mp he
    exact contains_eq_true.mpr ⟨_, mem_within.mp hvote⟩
  have hsettle := settle_of_present l (l.outcome b coins bill id) hb hs hpresent
  have hclosed : l.closed b coins id = { l with
      ballots := weighed id l.ballots (l.weights coins id)
      settlements := l.settlements.insert id (l.outcome b coins bill id)
      dueBills := l.dueBills.erase (bill.closes, id) } := by
    unfold closed
    rw [hb]
  unfold settleBill
  refine (bind_ok hbill _).trans ((bind_ok hvotes _).trans ?_)
  refine (bind_ok (consistent_eq_ok.mpr hsettle) _).trans ?_
  rw [hclosed]
  rfl

section Closed

variable {b coins} {id : BillId} {bill : Bill}

theorem closed_eq (hb : l.bills.get? id = some bill) :
    l.closed b coins id = { l with
      ballots := weighed id l.ballots (l.weights coins id)
      settlements := l.settlements.insert id (l.outcome b coins bill id)
      dueBills := l.dueBills.erase (bill.closes, id) } := by
  unfold closed
  rw [hb]

theorem bills_closed (l : Ledger) (b : Block) (coins : Coins) (id : BillId) :
    (l.closed b coins id).bills = l.bills := by
  unfold closed
  split <;> rfl

theorem settlements_closed_ne (l : Ledger) (b : Block) (coins : Coins) {id other : BillId}
    (h : other ≠ id) :
    (l.closed b coins id).settlements.get? other = l.settlements.get? other := by
  unfold closed
  split
  · rfl
  · exact get?_insert_ne _ _ h

/-- Weighing gives each of the voters the weight that belongs to it. -/
theorem get?_weighed (f : KeyId → UInt64) (id : BillId) (voters : List KeyId)
    (m : SortedMap (BillId × KeyId) Ballot) (k : BillId × KeyId) :
    (weighed id m (voters.map fun v => (v, f v))).get? k =
      (m.get? k).map fun x =>
        if k.1 = id ∧ k.2 ∈ voters then { x with weight := some (f k.2) } else x := by
  induction voters generalizing m with
  | nil => simp [weighed]
  | cons v rest ih =>
    obtain ⟨m', hweighed, hfirst⟩ : ∃ m',
        weighed id m ((v :: rest).map fun v => (v, f v)) =
          weighed id m' (rest.map fun v => (v, f v)) ∧
        m'.get? k = (m.get? k).map fun x =>
          if k = (id, v) then { x with weight := some (f v) } else x := by
      cases hv : m.get? (id, v) with
      | none =>
        refine ⟨m, by simp [weighed, hv], ?_⟩
        by_cases hk : k = (id, v)
        · rw [hk, hv]
          rfl
        · simp [hk]
      | some ballot =>
        refine ⟨m.insert (id, v) { ballot with weight := some (f v) }, by simp [weighed, hv], ?_⟩
        by_cases hk : k = (id, v)
        · simp [hk, hv]
        · simp [hk, get?_insert_ne]
    rw [hweighed, ih m', hfirst, Option.map_map]
    obtain ⟨bill, voter⟩ := k
    congr 1
    funext x
    by_cases hbill : bill = id
    · by_cases hvoter : voter = v
      · subst hvoter
        simp [hbill]
      · simp [hbill, hvoter]
    · simp [hbill]

/-- Settling a bill weighs the votes on it, and leaves the others as they are. -/
theorem get?_ballots_closed (hb : l.bills.get? id = some bill) (k : BillId × KeyId) :
    (l.closed b coins id).ballots.get? k = (l.ballots.get? k).map fun x =>
      if k.1 = id then { x with weight := some (coins.balance k.2) } else x := by
  have hweights : l.weights coins id = ((l.ballots.within id).map Prod.fst).map fun v =>
      (v, coins.balance v) := by
    rw [List.map_map]
    rfl
  rw [closed_eq hb]
  dsimp only
  rw [hweights, get?_weighed coins.balance]
  cases hk : l.ballots.get? k with
  | none => rfl
  | some x =>
    have hvoted : k.1 = id → k.2 ∈ (l.ballots.within id).map Prod.fst := by
      rintro rfl
      exact List.mem_map.mpr ⟨(k.2, x), mem_within.mpr hk, rfl⟩
    by_cases hid : k.1 = id
    · simp [hid, hvoted hid]
    · simp [hid]

/-- Settling a bill takes its entry out of the index. -/
theorem dueBills_closed (h : l.Scheduled) (hb : l.bills.get? id = some bill) (time : Timestamp)
    (other : BillId) :
    (l.closed b coins id).dueBills.contains (time, other) = true ↔
      other ≠ id ∧ l.dueBills.contains (time, other) = true := by
  rw [closed_eq hb]
  simp only [contains_eq_true, get?_erase]
  constructor
  · rintro ⟨u, hu⟩
    split at hu
    · cases hu
    next hne =>
    refine ⟨?_, u, hu⟩
    rintro rfl
    obtain ⟨bill', hb', hcloses, _⟩ := h.due time other (contains_eq_true.mpr ⟨u, hu⟩)
    rw [hb] at hb'
    cases hb'
    exact hne (by rw [hcloses])
  · rintro ⟨hne, u, hu⟩
    refine ⟨u, ?_⟩
    rw [if_neg fun e => hne (Prod.mk.inj e).2]
    exact hu

theorem Scheduled.closed (h : l.Scheduled) (hb : l.bills.get? id = some bill) :
    (l.closed b coins id).Scheduled where
  ids other x hx := by
    rw [bills_closed] at hx
    exact h.ids other x hx
  due time other hdue := by
    rw [bills_closed]
    obtain ⟨hne, hdue⟩ := (dueBills_closed h hb time other).mp hdue
    rw [settlements_closed_ne l b coins hne]
    exact h.due time other hdue
  unsettled other x hx hs := by
    rw [bills_closed] at hx
    have hne : other ≠ id := by
      rintro rfl
      rw [closed_eq hb] at hs
      simp at hs
    rw [settlements_closed_ne l b coins hne] at hs
    exact (dueBills_closed h hb _ other).mpr ⟨hne, h.unsettled other x hx hs⟩
  settled other s hs := by
    rw [bills_closed]
    by_cases hne : other = id
    · exact ⟨bill, hne ▸ hb⟩
    · rw [settlements_closed_ne l b coins hne] at hs
      exact h.settled other s hs

end Closed

/-- Different bills that are stored and not settled are all settled, one after another. -/
theorem mapM_settleBill {ids : List BillId} (l : Ledger) (hids : ids.Nodup)
    (h : ∀ id ∈ ids, (∃ bill, l.bills.get? id = some bill) ∧ l.settlements.get? id = none) :
    ∃ settled, settled.map Prod.fst = ids ∧
      ids.mapM (settleBill b coins) l = .ok settled (ids.foldl (·.closed b coins ·) l) := by
  induction ids generalizing l with
  | nil => exact ⟨[], rfl, rfl⟩
  | cons id rest ih =>
    obtain ⟨hfresh, hrest⟩ := List.nodup_cons.mp hids
    obtain ⟨⟨bill, hb⟩, hs⟩ := h id List.mem_cons_self
    have hothers : ∀ other ∈ rest,
        (∃ bill, (l.closed b coins id).bills.get? other = some bill) ∧
          (l.closed b coins id).settlements.get? other = none := by
      intro other hother
      have hne : other ≠ id := by
        rintro rfl
        exact hfresh hother
      rw [bills_closed, settlements_closed_ne l b coins hne]
      exact h other (List.mem_cons_of_mem id hother)
    obtain ⟨settled, hfst, hmap⟩ := ih (l.closed b coins id) hrest hothers
    refine ⟨(id, l.outcome b coins bill id) :: settled, by rw [List.map_cons, hfst], ?_⟩
    rw [List.mapM_cons, List.foldl_cons]
    exact (bind_ok (settleBill_apply b coins hb hs) _).trans ((bind_ok hmap _).trans rfl)

theorem scheduled_foldl_closed {ids : List BillId} (h : l.Scheduled)
    (hids : ∀ id ∈ ids, ∃ bill, l.bills.get? id = some bill) :
    (ids.foldl (·.closed b coins ·) l).Scheduled ∧
      ∀ time other, (ids.foldl (·.closed b coins ·) l).dueBills.contains (time, other) = true ↔
        other ∉ ids ∧ l.dueBills.contains (time, other) = true := by
  induction ids generalizing l with
  | nil => simp [h]
  | cons id rest ih =>
    obtain ⟨bill, hb⟩ := hids id List.mem_cons_self
    have hrest : ∀ other ∈ rest, ∃ bill, (l.closed b coins id).bills.get? other = some bill := by
      intro other hother
      rw [bills_closed]
      exact hids other (List.mem_cons_of_mem id hother)
    obtain ⟨hsched, hdue⟩ := ih (h.closed hb) hrest
    refine ⟨hsched, fun time other => ?_⟩
    rw [List.foldl_cons, hdue, dueBills_closed h hb, List.mem_cons, not_or]
    constructor
    · rintro ⟨hrest, hne, hin⟩
      exact ⟨⟨hne, hrest⟩, hin⟩
    · rintro ⟨⟨hne, hrest⟩, hin⟩
      exact ⟨hrest, hne, hin⟩

def settledAll (l : Ledger) : Ledger := (l.billsDue b.time).foldl (·.closed b coins ·) l

theorem Scheduled.due_stored (h : l.Scheduled) {time : Timestamp} {id : BillId}
    (hid : id ∈ l.billsDue time) :
    (∃ bill, l.bills.get? id = some bill) ∧ l.settlements.get? id = none := by
  obtain ⟨closes, _, hdue⟩ := mem_billsDue.mp hid
  obtain ⟨bill, hb, _, hs⟩ := h.due closes id hdue
  exact ⟨⟨bill, hb⟩, hs⟩

/-- What settling one bill keeps, settling every bill that is due keeps. -/
theorem Scheduled.settledAll_induction {P : Ledger → Prop} (h : l.Scheduled) (hl : P l)
    (hstep : ∀ l id bill, P l → l.bills.get? id = some bill → l.settlements.get? id = none →
      bill.closes ≤ b.time → P (l.closed b coins id)) : P (l.settledAll b coins) := by
  have hfold : ∀ (ids : List BillId) (m : Ledger), ids.Nodup → P m →
      (∀ id ∈ ids, (∃ bill, m.bills.get? id = some bill ∧ bill.closes ≤ b.time) ∧
        m.settlements.get? id = none) →
      P (ids.foldl (·.closed b coins ·) m) := by
    intro ids
    induction ids with
    | nil => exact fun m _ hm _ => hm
    | cons id rest ih =>
      intro m hnodup hm hids
      obtain ⟨hfresh, hrest⟩ := List.nodup_cons.mp hnodup
      obtain ⟨⟨bill, hb, hcloses⟩, hs⟩ := hids id List.mem_cons_self
      refine ih _ hrest (hstep m id bill hm hb hs hcloses) ?_
      intro other hother
      have hne : other ≠ id := by
        rintro rfl
        exact hfresh hother
      rw [bills_closed, settlements_closed_ne m b coins hne]
      exact hids other (List.mem_cons_of_mem id hother)
  refine hfold _ l (h.nodup_billsDue b.time) hl fun id hid => ?_
  obtain ⟨closes, hle, hdue⟩ := mem_billsDue.mp hid
  obtain ⟨bill, hb, rfl, hs⟩ := h.due closes id hdue
  exact ⟨⟨bill, hb, hle⟩, hs⟩

theorem Scheduled.settledAll (h : l.Scheduled) : (l.settledAll b coins).Scheduled :=
  (scheduled_foldl_closed b coins h fun _ hid => (h.due_stored hid).1).1

/-- What remains in the index closes later than the block. -/
theorem Scheduled.dueBills_settledAll (h : l.Scheduled) (time : Timestamp) (id : BillId) :
    (l.settledAll b coins).dueBills.contains (time, id) = true ↔
      b.time < time ∧ l.dueBills.contains (time, id) = true := by
  have hstored : ∀ id ∈ l.billsDue b.time, ∃ bill, l.bills.get? id = some bill :=
    fun _ hid => (h.due_stored hid).1
  have hfold := (scheduled_foldl_closed b coins h hstored).2 time id
  unfold Ledger.settledAll
  rw [hfold, mem_billsDue]
  constructor
  · rintro ⟨hnot, hdue⟩
    exact ⟨UInt64.not_le.mp fun hle => hnot ⟨time, hle, hdue⟩, hdue⟩
  · rintro ⟨hlater, hdue⟩
    refine ⟨?_, hdue⟩
    -- A bill is in the index under one end only, the one in its record.
    rintro ⟨closes, hle, hdue'⟩
    obtain ⟨bill, hb, hcloses, _⟩ := h.due time id hdue
    obtain ⟨bill', hb', hcloses', _⟩ := h.due closes id hdue'
    rw [hb] at hb'
    cases hb'
    rw [← hcloses', hcloses] at hle
    exact UInt64.not_le.mpr hlater hle

theorem Scheduled.billsDue_settledAll (h : l.Scheduled) :
    (l.settledAll b coins).billsDue b.time = [] := by
  rw [List.eq_nil_iff_forall_not_mem]
  intro id hid
  obtain ⟨closes, hle, hdue⟩ := mem_billsDue.mp hid
  have hlater := ((h.dueBills_settledAll b coins closes id).mp hdue).1
  exact UInt64.not_le.mpr hlater hle

theorem keeps_settledAll {γ : Type} (g : Ledger → γ)
    (hclosed : ∀ m id, g (m.closed b coins id) = g m) (l : Ledger) :
    g (l.settledAll b coins) = g l := by
  have hfold (ids : List BillId) (m : Ledger) : g (ids.foldl (·.closed b coins ·) m) = g m := by
    induction ids generalizing m with
    | nil => rfl
    | cons id rest ih => exact (ih _).trans (hclosed m id)
  exact hfold _ l

def entered (l : Ledger) (cursor : Option Cursor) : Ledger :=
  if entersBlock cursor b then { l.settledAll b coins with cursor := some ⟨b.height, 0⟩ }
  else l.settledAll b coins

/-- What settling a bill and moving the cursor leave as it is, entering a block does. -/
theorem keeps_entered {γ : Type} (g : Ledger → γ) (hclosed : ∀ m id, g (m.closed b coins id) = g m)
    (hcursor : ∀ m c, g { m with cursor := c } = g m) (l : Ledger) (cursor : Option Cursor) :
    g (l.entered b coins cursor) = g l := by
  unfold entered
  split
  · exact (hcursor _ _).trans (keeps_settledAll b coins g hclosed l)
  · exact keeps_settledAll b coins g hclosed l

/-- A block is entered, and settles exactly the bills that are due. -/
theorem Scheduled.enter_apply (h : l.Scheduled) (cursor : Option Cursor) :
    ∃ settled, settled.map Prod.fst = l.billsDue b.time ∧
      enter b coins cursor l = .ok settled (l.entered b coins cursor) := by
  have hread : Step.read (LedgerReads.billsDue · b.time) l = .ok (l.billsDue b.time) l :=
    read_of_ok rfl
  obtain ⟨settled, hfst, hmap⟩ := mapM_settleBill b coins l (h.nodup_billsDue b.time)
    fun _ hid => h.due_stored hid
  refine ⟨settled, hfst, ?_⟩
  unfold enter
  rw [atomically_eq_ok]
  refine (bind_ok hread _).trans ((bind_ok hmap _).trans ?_)
  unfold entered
  by_cases he : entersBlock cursor b = true
  · simp only [he, if_true]
    rfl
  · simp only [he]
    rfl

end Ledger

end CivicLedger
