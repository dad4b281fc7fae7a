import CivicLedger.Rules.Effect
import CivicLedger.Rules.Refusal
import CivicLedger.State.Interface

/-!
# Admission of bills and of votes on them

Committees submit bills, one to a title. Everybody may vote once on a bill, until its window closes
or it is settled.
-/

namespace CivicLedger.Rules

variable {σ : Type} [LedgerReads σ]

open LedgerReads Admission

def admitBill (s : σ) (point : ChainPoint) (sender : KeyId) (d : BillDraft) : Admission Effect := do
  if (← read (committee? s sender)).isNone then refuse (.notCommittee sender)
  let id := BillId.ofTitle d.title
  if (← read (bill? s id)).isSome then refuse (.billExists id)
  return .submitBill
    ⟨id, d.title, d.detail, d.url, sender, point.time, votingEnd point.time d.days, d.options,
      point.height⟩

def admitBallot (s : σ) (point : ChainPoint) (sender : KeyId) (id : BillId) (choice : UInt8) :
    Admission Effect := do
  match ← read (bill? s id) with
  | none => refuse (.unknownBill id)
  | some bill =>
    if bill.isClosedAt point.time then refuse (.billFinished id)
    if (← read (settlement? s id)).isSome then refuse (.billFinished id)
    if bill.options.length ≤ choice.toNat then
      refuse (.optionOutOfRange choice bill.options.length)
    if (← read (ballot? s id sender)).isSome then refuse (.billAlreadyVoted id)
    return .voteBill id sender choice

end CivicLedger.Rules
