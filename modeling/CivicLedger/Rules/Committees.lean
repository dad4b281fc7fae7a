import CivicLedger.Rules.Effect
import CivicLedger.Rules.Refusal
import CivicLedger.State.Interface

/-!
# Admission of committees and of votes for them

An address becomes a committee once, under a name of its own. Everybody may vote for one registered
committee at a time.
-/

namespace CivicLedger.Rules

variable {σ : Type} [LedgerReads σ]

open LedgerReads Admission

def admitCommittee (s : σ) (point : ChainPoint) (sender : KeyId) (name url : String) :
    Admission Effect := do
  if (← read (committee? s sender)).isSome then refuse (.committeeRegistered sender)
  if (← read (committeeNamed? s name)).isSome then refuse (.committeeNameTaken name)
  return .registerCommittee ⟨sender, name, url, point.height⟩

def requireCommittee (s : σ) (committee : KeyId) : Admission Unit := do
  if (← read (committee? s committee)).isNone then refuse (.unknownCommittee committee)

def admitCommitteeVote (s : σ) (sender committee : KeyId) : Admission Effect := do
  requireCommittee s committee
  if (← read (committeeVoteOf? s sender)).isSome then refuse (.committeeAlreadyVoted committee)
  return .voteCommittee sender committee

def admitCommitteeRevocation (s : σ) (sender committee : KeyId) : Admission Effect := do
  requireCommittee s committee
  if (← read (committeeVoteOf? s sender)) ≠ some committee then
    refuse (.committeeNotVoted committee)
  return .revokeCommittee sender committee

end CivicLedger.Rules
