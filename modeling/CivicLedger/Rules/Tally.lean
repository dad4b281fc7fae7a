import CivicLedger.Number.Word

/-!
# Counting votes

The weights of the votes for each option are added up, stopping at the largest word. The option with
the highest total wins, the first of several; without any weight none does. Votes for options that
the bill does not have are passed over.
-/

namespace CivicLedger

structure Tally where
  totals : List UInt64
  total : UInt64
  winner : Option UInt8
  passed : Bool
  deriving DecidableEq, Repr

namespace Tally

def add (totals : List UInt64) (vote : UInt8 × UInt64) : List UInt64 :=
  totals.modify vote.1.toNat (Word.satAdd · vote.2)

/-- The index of an option, as far as a byte can tell. -/
def optionAt (i : Nat) : Option UInt8 := if i < 256 then some (UInt8.ofNat i) else none

/-- Goes on from the option at index `i`, with the best total so far and who had it. -/
def leader : List UInt64 → Nat → UInt64 → Option UInt8 → Option UInt8
  | [], _, _, winner => winner
  | t :: rest, i, best, winner =>
    if best < t then leader rest (i + 1) t (optionAt i) else leader rest (i + 1) best winner

def ofTotals (totals : List UInt64) : Tally :=
  let total := Word.satSum totals
  ⟨totals, total, leader totals 0 0 none, 0 < total⟩

/-- Counts votes, each an option and a weight, on a bill with `count` options. -/
def ofVotes (count : Nat) (votes : List (UInt8 × UInt64)) : Tally :=
  ofTotals (votes.foldl add (List.replicate count 0))

end Tally

end CivicLedger
