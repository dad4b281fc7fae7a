import CivicLedger.State.Coins
import CivicLedger.State.Interface

/-!
# Surveys

Questions to a ledger are answered for one point of the chain and one set of coin balances. Votes
weigh as many as their voters have coins, so that answers for the same point are always the same.
-/

namespace CivicLedger

structure Survey (σ : Type) where
  ledger : σ
  coins : Coins
  point : ChainPoint

/-- Why a question has no answer. -/
inductive SurveyFault where
  | unknownDelegate (name : String)
  | noThresholds
  | zeroThreshold
  | storage (fault : StoreFault)
  deriving DecidableEq

def SurveyFault.message : SurveyFault → String
  | unknownDelegate name => "delegate '" ++ name ++ "' is not registered"
  | noThresholds => "at least one distribution threshold is required"
  | zeroThreshold => "distribution thresholds must be positive"
  | storage fault => "storage error: " ++ fault.message

structure VoterWeight where
  address : KeyId
  votes : UInt64
  deriving DecidableEq

namespace Survey

variable {σ : Type} [LedgerReads σ]

open LedgerReads

/-- The coins that a store has recorded, and the block that they belong to. Without one it is the
cursor's, at time zero. -/
def pin (s : σ) : Except StoreFault (Survey σ) := do
  let point ← match ← synced? s with
    | some point => pure point
    | none => pure ⟨((← cursor? s).map Cursor.height).getD 0, 0⟩
  return ⟨s, SortedMap.ofList (← coinBalances s), point⟩

def ask {α : Type} (v : Survey σ) (f : σ → Except StoreFault α) : Except SurveyFault α :=
  match f v.ledger with
  | .ok a => .ok a
  | .error fault => .error (.storage fault)

def weigh (v : Survey σ) (address : KeyId) : VoterWeight := ⟨address, v.coins.balance address⟩

/-- The weight of several voters together, stopping at the largest word. -/
def weightOf (v : Survey σ) (voters : List KeyId) : UInt64 :=
  Word.satSum (voters.map v.coins.balance)

def nameOf (v : Survey σ) (address : KeyId) : Except SurveyFault (Option String) :=
  v.ask (nameOf? · address)

def addressNamed (v : Survey σ) (name : String) : Except SurveyFault (Option KeyId) :=
  v.ask (named? · name)

end Survey

end CivicLedger
