import CivicLedger.Chain.Fault
import CivicLedger.Rules.Effect

/-!
# Performing effects

The edits that an admitted effect makes. Payments first make matured locks available and then take
the amount, in exact arithmetic.
-/

namespace CivicLedger.Chain

variable {σ : Type} [LedgerEdits σ]

open LedgerReads LedgerEdits Step

def unlock (d : TokenDebit) (available : UInt64) (l : TokenLock) : Step σ UInt64 := do
  consistent (removeLock l.token l.holder l.expiry)
  match Word.checkedAdd available l.amount with
  | some sum => return sum
  | none => throw (.inconsistent (.overflow d.token d.source))

/-- Takes the amount from what the source has available after its matured locks. -/
def withdraw (d : TokenDebit) : Step σ Unit := do
  let available ← read (tokenBalance · d.token d.source)
  let available ← d.matured.foldlM (unlock d) available
  match Word.checkedSub available d.amount with
  | some remaining => consistent (setTokenBalance d.token d.source remaining)
  | none => throw (.inconsistent (.underflow d.token d.source available d.amount))

def credit (d : TokenDebit) : Step σ Unit := do
  let balance ← read (tokenBalance · d.token d.target)
  match Word.checkedAdd balance d.amount with
  | some sum => consistent (setTokenBalance d.token d.target sum)
  | none => throw (.inconsistent (.overflow d.token d.target))

def perform : Effect → Step σ Unit
  | .registerDelegate delegate => consistent (insertDelegate delegate)
  | .voteDelegates voter delegates =>
    delegates.forM fun delegate => consistent (addDelegateVote voter delegate)
  | .revokeDelegates voter delegates =>
    delegates.forM fun delegate => consistent (removeDelegateVote voter delegate)
  | .registerCommittee committee => consistent (insertCommittee committee)
  | .voteCommittee voter committee => consistent (putCommitteeVote voter committee)
  | .revokeCommittee voter committee => consistent (removeCommitteeVote voter committee)
  | .submitBill bill => consistent (insertBill bill)
  | .voteBill bill voter choice => consistent (putBallot bill voter choice)
  | .registerName address name => consistent (insertName address name)
  | .createToken token => do
    consistent (insertToken token)
    consistent (setTokenBalance token.id token.owner token.total)
  | .transferToken debit => do
    withdraw debit
    credit debit
  | .lockToken debit expiry => do
    withdraw debit
    consistent (addLock ⟨debit.token, debit.target, expiry, debit.amount⟩)

end CivicLedger.Chain
