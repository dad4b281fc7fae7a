import CivicLedger.Survey.Basic
import CivicLedger.Survey.Ranking

/-!
# Questions about delegates
-/

namespace CivicLedger

structure RankedDelegate where
  address : KeyId
  name : String
  votes : UInt64
  deriving DecidableEq

namespace Survey

variable {σ : Type} [LedgerReads σ]

open LedgerReads

def listDelegates (v : Survey σ) : Except SurveyFault (List Delegate) := v.ask delegates

def delegateNamed (v : Survey σ) (name : String) : Except SurveyFault KeyId := do
  match ← v.ask (delegateNamed? · name) with
  | some address => return address
  | none => throw (.unknownDelegate name)

def delegateVotes (v : Survey σ) (name : String) : Except SurveyFault UInt64 := do
  let address ← v.delegateNamed name
  return v.weightOf (← v.ask (delegateVoters · address))

def delegateFunds (v : Survey σ) (name : String) : Except SurveyFault UInt64 := do
  return v.coins.balance (← v.delegateNamed name)

def votedDelegates (v : Survey σ) (voter : KeyId) : Except SurveyFault (List Delegate) := do
  let found ← (← v.ask (delegateVotesOf · voter)).mapM fun address => v.ask (delegate? · address)
  return found.filterMap id

def receivedVotes (v : Survey σ) (name : String) : Except SurveyFault (List VoterWeight) := do
  let address ← v.delegateNamed name
  return (← v.ask (delegateVoters · address)).map v.weigh

/-- The delegates whose own coins reach a least balance, with the weight of their votes. -/
def eligibleDelegates (v : Survey σ) (least : UInt64) :
    Except SurveyFault (List RankedDelegate) := do
  let eligible := (← v.ask delegates).filter fun d => least ≤ v.coins.balance d.address
  eligible.mapM fun d => do
    return ⟨d.address, d.name, v.weightOf (← v.ask (delegateVoters · d.address))⟩

def topDelegates (v : Survey σ) (n : Nat) (least : UInt64) :
    Except SurveyFault (List RankedDelegate) := do
  return Ranking.top RankedDelegate.votes RankedDelegate.address n (← v.eligibleDelegates least)

end Survey

end CivicLedger
