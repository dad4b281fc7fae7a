import CivicLedger.Survey.Basic
import CivicLedger.Survey.Ranking

/-!
# Questions about coins

The distribution counts each address in the bucket of the largest threshold not above its balance;
addresses below every threshold are in none.
-/

namespace CivicLedger

structure Bucket where
  threshold : UInt64
  addresses : Nat
  coins : UInt64
  deriving DecidableEq, Repr

namespace Survey

variable {σ : Type}

def coinBalance (v : Survey σ) (address : KeyId) : UInt64 := v.coins.balance address

/-- The `n` addresses with the most coins. -/
def coinRank (v : Survey σ) (n : Nat) : List (KeyId × UInt64) :=
  Ranking.top Prod.snd Prod.fst n (v.coins.entries.filter fun e => 0 < e.2)

def reached (buckets : List Bucket) (balance : UInt64) : Nat :=
  (buckets.takeWhile fun b => b.threshold ≤ balance).length

/-- Counts a balance in the last bucket that it reaches. -/
def place (buckets : List Bucket) (balance : UInt64) : List Bucket :=
  match reached buckets balance with
  | 0 => buckets
  | i + 1 => buckets.modify i fun b => ⟨b.threshold, b.addresses + 1, Word.satAdd b.coins balance⟩

def coinDistribution (v : Survey σ) (thresholds : List UInt64) :
    Except SurveyFault (List Bucket) :=
  if thresholds = [] then .error .noThresholds
  else if 0 ∈ thresholds then .error .zeroThreshold
  else
    let start := (SortedSet.ofKeys thresholds).keys.map fun t => ⟨t, 0, 0⟩
    .ok ((v.coins.values).foldl place start)

end Survey

end CivicLedger
