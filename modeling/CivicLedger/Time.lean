import CivicLedger.Number.Word

/-!
# Heights and times

Blocks are numbered by height and stamped in seconds since 1970. A voting window is closed from its
end on.
-/

namespace CivicLedger

abbrev Height := UInt64

abbrev Timestamp := UInt64

/-- A height together with a time: what operations are admitted at and queries are answered at. -/
structure ChainPoint where
  height : Height
  time : Timestamp
  deriving DecidableEq, Repr

namespace Timestamp

def text (t : Timestamp) : String := toString t.toNat ++ "s"

def hasExpired (start seconds now : Timestamp) : Bool := Word.satAdd start seconds ≤ now

end Timestamp

def secondsPerDay : UInt64 := 86400

def votingEnd (start : Timestamp) (days : UInt16) : Timestamp :=
  Word.satAdd start (days.toUInt64 * secondsPerDay)

/-- The two largest units of a span of time. -/
def describeDuration (seconds : UInt64) : String :=
  let s := seconds.toNat
  if s < 60 then toString s ++ "s"
  else if s < 3600 then toString (s / 60) ++ "m " ++ toString (s % 60) ++ "s"
  else if s < 86400 then toString (s / 3600) ++ "h " ++ toString (s % 3600 / 60) ++ "m"
  else toString (s / 86400) ++ "d " ++ toString (s % 86400 / 3600) ++ "h"

/-- What is left of a voting window. -/
def describeWindow (close now : Timestamp) : String :=
  if now < close then "closes in " ++ describeDuration (close - now) else "closed"

end CivicLedger
