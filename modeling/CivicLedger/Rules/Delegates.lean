import CivicLedger.Rules.Effect
import CivicLedger.Rules.Refusal
import CivicLedger.State.Interface

/-!
# Admission of delegates and of votes for them

An address becomes a delegate once, under a name of its own. Everybody may vote for up to 51
registered delegates, and for each of them once.
-/

namespace CivicLedger.Rules

variable {σ : Type} [LedgerReads σ]

open LedgerReads Admission

def admitDelegate (s : σ) (point : ChainPoint) (sender : KeyId) (name : String) :
    Admission Effect := do
  if (← read (delegate? s sender)).isSome then refuse (.delegateRegistered sender)
  if (← read (delegateNamed? s name)).isSome then refuse (.delegateNameTaken name)
  return .registerDelegate ⟨sender, name, point.height⟩

def checkVote (s : σ) (existing : List KeyId) (delegate : KeyId) : Admission Unit := do
  if (← read (delegate? s delegate)).isNone then refuse (.unknownDelegate delegate)
  if delegate ∈ existing then refuse (.delegateAlreadyVoted delegate)

def admitDelegateVotes (s : σ) (sender : KeyId) (delegates : List KeyId) : Admission Effect := do
  let existing ← read (delegateVotesOf s sender)
  delegates.forM (checkVote s existing)
  let count := existing.length + delegates.length
  if Form.maxDelegateVotes < count then refuse (.tooManyDelegateVotes count)
  return .voteDelegates sender delegates

def admitDelegateRevocation (s : σ) (sender : KeyId) (delegates : List KeyId) :
    Admission Effect := do
  let existing ← read (delegateVotesOf s sender)
  match delegates.find? (· ∉ existing) with
  | some missing => refuse (.delegateNotVoted missing)
  | none => return .revokeDelegates sender delegates

end CivicLedger.Rules
