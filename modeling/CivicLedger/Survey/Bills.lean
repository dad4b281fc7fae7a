import CivicLedger.Rules.Tally
import CivicLedger.Survey.Basic

/-!
# Questions about bills

A settled bill stands as it was settled. Any other is counted with the coins of the moment, and is
finished once its window has closed.
-/

namespace CivicLedger

structure BillStanding where
  finished : Bool
  passed : Bool
  winner : Option UInt8
  total : UInt64
  totals : List UInt64
  /-- The height at which the bill was settled. -/
  settledAt : Option Height
  deriving DecidableEq, Repr

namespace Survey

variable {σ : Type} [LedgerReads σ]

open LedgerReads

def liveTally (v : Survey σ) (b : Bill) (votes : List (KeyId × Ballot)) : Tally :=
  Tally.ofVotes b.options.length (votes.map fun e => (e.2.choice, v.coins.balance e.1))

def billStanding (v : Survey σ) (b : Bill) : Except SurveyFault BillStanding := do
  match ← v.ask (settlement? · b.id) with
  | some s => return ⟨true, s.passed, s.winner, s.total, s.totals, some s.height⟩
  | none =>
    let t := v.liveTally b (← v.ask (ballots · b.id))
    return ⟨b.isClosedAt v.point.time, t.passed, t.winner, t.total, t.totals, none⟩

def withStanding (v : Survey σ) (b : Bill) : Except SurveyFault (Bill × BillStanding) := do
  return (b, ← v.billStanding b)

def bill (v : Survey σ) (id : BillId) : Except SurveyFault (Option (Bill × BillStanding)) := do
  match ← v.ask (bill? · id) with
  | some b => return some (← v.withStanding b)
  | none => return none

def listBills (v : Survey σ) : Except SurveyFault (List (Bill × BillStanding)) := do
  (← v.ask bills).mapM v.withStanding

/-- The weight of a vote: as settled, or by the coins of the moment. -/
def ballotWeight (v : Survey σ) (e : KeyId × Ballot) : VoterWeight :=
  ⟨e.1, e.2.weight.getD (v.coins.balance e.1)⟩

def billVoters (v : Survey σ) (id : BillId) :
    Except SurveyFault (List (UInt8 × List VoterWeight)) := do
  match ← v.ask (bill? · id) with
  | none => return []
  | some b =>
    let votes ← v.ask (ballots · id)
    return (List.range b.options.length).map fun i =>
      (UInt8.ofNat i, (votes.filter fun e => e.2.choice.toNat = i).map v.ballotWeight)

def voterBills (v : Survey σ) (voter : KeyId) : Except SurveyFault (List (BillId × UInt8)) := do
  let found ← (← v.ask (billsVotedBy · voter)).mapM fun id => do
    return (← v.ask (ballot? · id voter)).map fun ballot => (id, ballot.choice)
  return found.filterMap id

end Survey

end CivicLedger
