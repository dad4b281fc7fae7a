import CivicLedger.Survey.Basic

/-!
# Questions about committees
-/

namespace CivicLedger

structure CommitteeStanding where
  address : KeyId
  name : String
  url : String
  votes : UInt64
  deriving DecidableEq

namespace Survey

variable {σ : Type} [LedgerReads σ]

open LedgerReads

def committeeStanding (v : Survey σ) (c : Committee) : Except SurveyFault CommitteeStanding := do
  return ⟨c.address, c.name, c.url, v.weightOf (← v.ask (committeeVoters · c.address))⟩

def committee (v : Survey σ) (address : KeyId) :
    Except SurveyFault (Option CommitteeStanding) := do
  match ← v.ask (committee? · address) with
  | some c => return some (← v.committeeStanding c)
  | none => return none

def listCommittees (v : Survey σ) : Except SurveyFault (List CommitteeStanding) := do
  (← v.ask committees).mapM v.committeeStanding

def committeeVoters (v : Survey σ) (address : KeyId) : Except SurveyFault (List VoterWeight) := do
  return (← v.ask (LedgerReads.committeeVoters · address)).map v.weigh

def committeeBills (v : Survey σ) (address : KeyId) :
    Except SurveyFault (List (BillId × String)) := do
  let found ← (← v.ask (LedgerReads.committeeBills · address)).mapM fun id => do
    return (← v.ask (bill? · id)).map fun b => (id, b.title)
  return found.filterMap id

def voterCommittees (v : Survey σ) (voter : KeyId) :
    Except SurveyFault (List CommitteeStanding) := do
  match ← v.ask (committeeVoteOf? · voter) with
  | some address => return (← v.committee address).toList
  | none => return []

end Survey

end CivicLedger
