import CivicLedger.Proofs.Chain.Runs
import CivicLedger.Proofs.Chain.Settle

/-!
# What every run of blocks keeps

From an empty ledger every block keeps tokens conserved and numbered in the order of their creation,
and the index of due bills exact. With that nothing that the rules admit fails in the store, up to
the point where no number is left for a new token.
-/

namespace CivicLedger

open Program Chain SortedMap

namespace Ledger

structure Numbered (l : Ledger) : Prop where
  ids : ∀ id t, l.tokens.get? id = some t → t.id = id
  bound : ∀ id t, l.tokens.get? id = some t → id.number.toNat ≤ l.tokens.size

/-- What holds of a ledger after any run of blocks. -/
structure Sound (l : Ledger) : Prop where
  conserved : l.Conserved
  numbered : l.Numbered
  scheduled : l.Scheduled

def IsFull (l : Ledger) : Prop := Word.max.toNat ≤ l.tokens.size

def billPart (l : Ledger) := (l.bills, l.settlements, l.dueBills)

variable {l : Ledger}

theorem sound_empty : Sound ∅ where
  conserved := {
    supply := fun _ => rfl
    balances := fun _ _ h => nomatch h
    locks := fun _ _ h => nomatch h }
  numbered := {
    ids := fun _ _ h => nomatch h
    bound := fun _ _ h => nomatch h }
  scheduled := {
    ids := fun _ _ h => nomatch h
    due := fun _ _ h => nomatch h
    unsettled := fun _ _ h => nomatch h
    settled := fun _ _ h => nomatch h }

theorem Numbered.congr (h : l.Numbered) {l' : Ledger} (ht : l'.tokens = l.tokens) :
    l'.Numbered where
  ids id t hid := h.ids id t (ht ▸ hid)
  bound id t hid := by
    rw [ht] at hid ⊢
    exact h.bound id t hid

theorem nextTokenId_of_none (hlast : l.tokens.last? = none) : l.nextTokenId = .first := by
  unfold nextTokenId
  rw [hlast]

theorem Numbered.nextTokenId_of_last (h : l.Numbered) {e : TokenId × Token}
    (hlast : l.tokens.last? = some e) : l.nextTokenId = e.1.next := by
  have hid := h.ids e.1 e.2 (get?_of_mem (List.mem_of_getLast? hlast))
  unfold nextTokenId
  rw [hlast]
  exact congrArg TokenId.next hid

/-- The next number stops at the largest word. -/
theorem toNat_next (id : TokenId) :
    id.next.number.toNat = min (id.number.toNat + 1) (UInt64.size - 1) :=
  Word.toNat_satAdd id.number 1

theorem Numbered.toNat_nextTokenId_le (h : l.Numbered) :
    l.nextTokenId.number.toNat ≤ l.tokens.size + 1 := by
  cases hlast : l.tokens.last? with
  | none =>
    rw [nextTokenId_of_none hlast]
    exact Nat.le_add_left 1 _
  | some e =>
    have hbound := h.bound e.1 e.2 (get?_of_mem (List.mem_of_getLast? hlast))
    rw [h.nextTokenId_of_last hlast, toNat_next]
    omega

/-- While there are fewer tokens than numbers, the next number is free. -/
theorem Numbered.nextTokenId_free (h : l.Numbered) (hfew : ¬ l.IsFull) :
    l.tokens.contains l.nextTokenId = false := by
  rw [contains_eq_false, Option.eq_none_iff_forall_ne_some]
  intro t ht
  cases hlast : l.tokens.last? with
  | none =>
    have hnil : l.tokens.entries = [] := List.getLast?_eq_none_iff.mp hlast
    rw [get?_eq_some_iff, hnil] at ht
    cases ht
  | some e =>
    rw [h.nextTokenId_of_last hlast] at ht
    have hbound := h.bound e.1 e.2 (get?_of_mem (List.mem_of_getLast? hlast))
    have hmax : Word.max.toNat = UInt64.size - 1 := rfl
    -- The last number is not below any other.
    have hlt : ¬ e.1.number < e.1.next.number :=
      of_decide_eq_false (not_before_of_last? hlast ht)
    rw [UInt64.lt_iff_toNat_lt, toNat_next] at hlt
    unfold IsFull at hfew
    omega

theorem Numbered.withToken (h : l.Numbered) {t : Token} (hid : t.id = l.nextTokenId)
    (hfree : l.tokens.contains t.id = false) : (l.withToken t).Numbered where
  ids id x hx := by
    rw [Ledger.withToken, get?_insert] at hx
    split at hx
    · next he =>
      cases hx
      exact he.symm
    · exact h.ids id x hx
  bound id x hx := by
    have hsize : (l.withToken t).tokens.size = l.tokens.size + 1 :=
      size_insert_of_absent (contains_eq_false.mp hfree) t
    rw [hsize]
    rw [Ledger.withToken, get?_insert] at hx
    split at hx
    · next he =>
      rw [he, hid]
      exact h.toNat_nextTokenId_le
    · exact Nat.le_succ_of_le (h.bound id x hx)

theorem Numbered.enact {e : Effect} (h : l.Numbered) (ha : l.Admits e) (hr : l.HasRoom e) :
    (l.enact e).Numbered := by
  cases e with
  | voteDelegates voter delegates => exact h.congr (by rw [enact_voteDelegates])
  | revokeDelegates voter delegates => exact h.congr (by rw [enact_revokeDelegates])
  | createToken t => exact (h.withToken ha.1 hr).congr (tokens_withBalance _ _ _ _)
  | transferToken d => exact h.congr (by rw [enact_transferToken])
  | lockToken d expiry => exact h.congr (by rw [enact_lockToken])
  | _ => exact h.congr rfl

theorem Scheduled.congr (h : l.Scheduled) {l' : Ledger} (he : l'.billPart = l.billPart) :
    l'.Scheduled := by
  obtain ⟨hb, hrest⟩ := Prod.mk.inj he
  obtain ⟨hs, hd⟩ := Prod.mk.inj hrest
  constructor
  · intro id bill hbill
    exact h.ids id bill (hb ▸ hbill)
  · intro time id hdue
    rw [hb, hs]
    exact h.due time id (hd ▸ hdue)
  · intro id bill hbill hnone
    rw [hd]
    exact h.unsettled id bill (hb ▸ hbill) (hs ▸ hnone)
  · intro id s hsome
    rw [hb]
    exact h.settled id s (hs ▸ hsome)

/-- A bill that is submitted is due at the end of its window. -/
theorem Scheduled.submit (h : l.Scheduled) {b : Bill} (hb : l.bills.contains b.id = false) :
    (l.enact (.submitBill b)).Scheduled := by
  have hnone := contains_eq_false.mp hb
  have hopen : l.settlements.get? b.id = none := by
    rw [Option.eq_none_iff_forall_ne_some]
    intro s hs
    obtain ⟨bill, hbill⟩ := h.settled b.id s hs
    rw [hnone] at hbill
    cases hbill
  constructor
  · intro id bill hbill
    rw [enact, get?_insert] at hbill
    split at hbill
    · next he =>
      cases hbill
      exact he.symm
    · exact h.ids id bill hbill
  · intro time id hdue
    simp only [enact, SortedSet.add, contains_eq_true, get?_insert] at hdue ⊢
    obtain ⟨u, hu⟩ := hdue
    split at hu
    · next he =>
      obtain ⟨rfl, rfl⟩ := Prod.mk.inj he
      exact ⟨b, by simp, rfl, hopen⟩
    · obtain ⟨bill, hbill, hcloses, hs⟩ := h.due time id (contains_eq_true.mpr ⟨u, hu⟩)
      have hne : id ≠ b.id := by
        rintro rfl
        rw [hnone] at hbill
        cases hbill
      exact ⟨bill, by rw [if_neg hne, hbill], hcloses, hs⟩
  · intro id bill hbill hs
    simp only [enact, SortedSet.add, contains_eq_true, get?_insert] at hbill hs ⊢
    split at hbill
    · next he =>
      cases hbill
      exact ⟨(), by rw [if_pos (by rw [he])]⟩
    · obtain ⟨u, hu⟩ := contains_eq_true.mp (h.unsettled id bill hbill hs)
      split
      · exact ⟨(), rfl⟩
      · exact ⟨u, hu⟩
  · intro id s hs
    obtain ⟨bill, hbill⟩ := h.settled id s hs
    rw [enact, get?_insert]
    split
    · exact ⟨b, rfl⟩
    · exact ⟨bill, hbill⟩

/-- Of all effects only submitting a bill touches the schedule. -/
theorem billPart_enact {e : Effect} (he : ∀ b, e ≠ .submitBill b) :
    (l.enact e).billPart = l.billPart := by
  cases e with
  | voteDelegates voter delegates => rw [enact_voteDelegates, billPart, billPart]
  | revokeDelegates voter delegates => rw [enact_revokeDelegates, billPart, billPart]
  | submitBill b => exact absurd rfl (he b)
  | createToken t => rw [enact_createToken, billPart, billPart]
  | transferToken d => rw [enact_transferToken, billPart, billPart]
  | lockToken d expiry => rw [enact_lockToken, billPart, billPart]
  | _ => rfl

theorem Scheduled.enact {e : Effect} (h : l.Scheduled) (ha : l.Admits e) :
    (l.enact e).Scheduled := by
  by_cases he : ∃ b, e = .submitBill b
  · obtain ⟨b, rfl⟩ := he
    exact h.submit ha
  · exact h.congr (billPart_enact fun b hb => he ⟨b, hb⟩)

theorem Sound.enact {e : Effect} (h : l.Sound) (ha : l.Admits e) (hr : l.HasRoom e) :
    (l.enact e).Sound :=
  ⟨h.conserved.enact ha hr, h.numbered.enact ha hr, h.scheduled.enact ha⟩

theorem Sound.withCursor (h : l.Sound) (c : Cursor) : { l with cursor := some c }.Sound :=
  ⟨h.conserved.congr rfl, h.numbered.congr rfl, h.scheduled.congr rfl⟩

theorem tokenPart_closed (l : Ledger) (b : Block) (coins : Coins) (id : BillId) :
    (l.closed b coins id).tokenPart = l.tokenPart := by
  unfold closed
  split <;> rfl

theorem Sound.entered (h : l.Sound) (b : Block) (coins : Coins) (cursor : Option Cursor) :
    (l.entered b coins cursor).Sound := by
  have hsame : (l.entered b coins cursor).tokenPart = l.tokenPart :=
    keeps_entered b coins tokenPart (tokenPart_closed · b coins ·) (fun _ _ => rfl) l cursor
  refine ⟨h.conserved.congr hsame, h.numbered.congr (Prod.mk.inj hsame).1, ?_⟩
  unfold Ledger.entered
  split
  · exact (h.scheduled.settledAll b coins).congr rfl
  · exact h.scheduled.settledAll b coins

/-- An admitted effect finds room unless the numbers of tokens are used up. -/
theorem Sound.hasRoom {e : Effect} (h : l.Sound) (ha : l.Admits e) (hfew : ¬ l.IsFull) :
    l.HasRoom e := by
  cases e with
  | createToken t =>
    obtain ⟨hid, _⟩ := ha
    have hfree := h.numbered.nextTokenId_free hfew
    rwa [← hid] at hfree
  | _ => trivial

inductive Processed (l : Ledger) (b : Block) (tx : Tx) : TxOutcome → Ledger → Prop where
  | unchanged {outcome : TxOutcome} (h : ∀ kind, outcome ≠ .applied kind) :
    Processed l b tx outcome l
  | enacted {op : Operation} {effect : Effect} (decoded : Payload.decode tx.payload = .ok op)
    (h : assess l b.point tx.sender op = .ok effect) (room : l.HasRoom effect) :
    Processed l b tx (.applied effect.kind) (l.enact effect)

theorem Processed.sound {b : Block} {tx : Tx} {outcome : TxOutcome} {l' : Ledger}
    (h : l.Processed b tx outcome l') (hs : l.Sound) : l'.Sound := by
  cases h with
  | unchanged _ => exact hs
  | enacted _ h room => exact hs.enact (admits_of_assess h) room

/-- A transaction is applied and moves the cursor behind itself, or it would create a token for
which no number is left. -/
theorem Sound.applyTx_cases (h : l.Sound) (fees : FeeSchedule) (b : Block) (tx : Tx) :
    (∃ outcome l', l.Processed b tx outcome l' ∧
      applyTx fees b tx l =
        .ok outcome { l' with cursor := some ⟨b.height, indexAfter tx.index⟩ }) ∨
    (∃ cause, applyTx fees b tx l = .error (.inconsistent cause) l) ∧ l.IsFull := by
  have hrun {outcome : TxOutcome} {l' : Ledger}
      (hp : process fees b tx l = .ok outcome l') : applyTx fees b tx l =
        .ok outcome { l' with cursor := some ⟨b.height, indexAfter tx.index⟩ } := by
    rw [applyTx_eq, atomically_eq_ok]
    exact (bind_ok hp _).trans rfl
  rcases process_cases fees b tx l with ⟨outcome, hnot, hp⟩ | ⟨op, fault, hfault⟩ |
    ⟨op, effect, hdecode, hassess, hp⟩
  · exact .inl ⟨outcome, l, .unchanged hnot, hrun hp⟩
  · exact absurd hfault ((decides_assess op).ne_fault fault)
  · have hadmits := admits_of_assess hassess
    by_cases hroom : l.HasRoom effect
    · have hperform := perform_apply h.conserved hadmits hroom
      exact .inl ⟨_, _, .enacted hdecode hassess hroom,
        hrun (hp.trans ((bind_ok hperform _).trans rfl))⟩
    · obtain ⟨cause, herror⟩ := perform_eq_error hroom
      have hfull : l.IsFull :=
        Classical.byContradiction fun hfew => hroom (h.hasRoom hadmits hfew)
      refine .inr ⟨⟨cause, ?_⟩, hfull⟩
      rw [applyTx_eq]
      unfold Step.atomically
      rw [bind_error (hp.trans (bind_error herror _))]

/-- A transaction that is applied has been processed, and the cursor has moved behind it. -/
theorem Sound.processed_of_applyTx {fees : FeeSchedule} {b : Block} {tx : Tx} {outcome : TxOutcome}
    {l' : Ledger} (h : l.Sound) (happly : applyTx fees b tx l = .ok outcome l') :
    ∃ m, l.Processed b tx outcome m ∧
      l' = { m with cursor := some ⟨b.height, indexAfter tx.index⟩ } := by
  rcases h.applyTx_cases fees b tx with ⟨_, m, hm, hok⟩ | ⟨⟨cause, herror⟩, _⟩
  · rw [happly] at hok
    cases hok
    exact ⟨m, hm, rfl⟩
  · rw [happly] at herror
    cases herror

/-- Transactions that are applied keep a ledger sound. -/
theorem Sound.taken {fees : FeeSchedule} {b : Block} {txs : List Tx} {l' : Ledger} (h : l.Sound)
    (ht : Taken fees b txs l l') : l'.Sound := by
  induction ht with
  | nil => exact h
  | cons happly _ ih =>
    obtain ⟨m, hm, rfl⟩ := h.processed_of_applyTx happly
    exact ih ((hm.sound h).withCursor _)

/-- A checked block keeps a ledger sound, and fails, for good, only where the numbers of tokens are
used up. -/
theorem ends_applyChecked_sound (fees : FeeSchedule) (b : Block) (coins : Coins) :
    Ends Sound (fun fault l => l.Sound ∧ l.IsFull ∧ fault.isFatal = true)
      (applyChecked fees b coins : Step Ledger _) := by
  refine ends_applyChecked ?_ ?_ ?_ fees b coins
  · exact .of_ok fun l h => ⟨l.cursor, l, rfl, h⟩
  · intro b coins cursor
    refine .of_ok fun l h => ?_
    obtain ⟨settled, _, henter⟩ := h.scheduled.enter_apply b coins cursor
    exact ⟨settled, _, henter, h.entered b coins cursor⟩
  · intro fees b tx l h
    rcases h.applyTx_cases fees b tx with ⟨outcome, l', hl', happly⟩ | ⟨⟨cause, happly⟩, hfull⟩
    · rw [happly]
      exact (hl'.sound h).withCursor _
    · rw [happly]
      exact ⟨h, hfull, rfl⟩

/-- Every run leaves a sound ledger, and has given up only where the numbers of tokens are used
up. -/
theorem sound_of_reached {a : Applicant} (h : Reached ∅ a l) :
    l.Sound ∧ (a.halted = true → l.IsFull) := by
  induction h with
  | start => exact ⟨sound_empty, fun h => nomatch h⟩
  | anew _ ih => exact ⟨ih.1, fun h => nomatch h⟩
  | block fees b coins _ ih =>
    obtain ⟨hsound, hhalted⟩ := ih
    rcases apply_ends (ends_applyChecked_sound fees b coins) hsound with
      ⟨fault, _, happly⟩ | ⟨_, ⟨report, l', happly, hl'⟩ | ⟨fault, l', happly, hl', hfull, _⟩⟩
    · rw [happly]
      exact ⟨hsound, hhalted⟩
    · rw [happly]
      exact ⟨hl', fun h => nomatch h⟩
    · rw [happly]
      exact ⟨hl', fun _ => hfull⟩

end Ledger

end CivicLedger
