import CivicLedger.Text.Digits

/-!
# Fixed-point amounts

Amounts are counted in raw units. Coins have eight decimal places; a token chooses its number of
places up to eight. A written amount is read exactly or refused, and reading an amount that was
written gives it back.
-/

namespace CivicLedger

structure InvalidAmount where
  text : String
  deriving DecidableEq, Repr

def InvalidAmount.message (e : InvalidAmount) : String := "invalid amount: " ++ e.text

namespace Amount

/-- Raw units in one coin. -/
def coin : UInt64 := 100000000

def maxDigits : UInt8 := 8

def unit? (digits : UInt8) : Option UInt64 :=
  if digits ≤ maxDigits then some (UInt64.ofNat (Nat.pow 10 digits.toNat)) else none

/-- The parts before and after the first point; the second is empty without one. -/
def splitPoint (l : List Char) : List Char × List Char :=
  (l.takeWhile (· ≠ '.'), (l.dropWhile (· ≠ '.')).drop 1)

def part? (l : List Char) : Option UInt64 := if l = [] then some 0 else Text.wordOfDigits? l

def checkedMul (a b : UInt64) : Option UInt64 :=
  if a.toNat * b.toNat < UInt64.size then some (a * b) else none

/-- Digits with at most one point among them, at least one digit and no more places than
`digits`. -/
def ofChars? (l : List Char) (digits : UInt8) : Option UInt64 := do
  let unit ← unit? digits
  let (whole, fraction) := splitPoint l
  guard (whole ≠ [] ∨ fraction ≠ [])
  guard (whole.all Text.isDigit ∧ fraction.all Text.isDigit)
  guard (fraction.length ≤ digits.toNat)
  let units ← part? whole
  let places ← part? fraction
  let scaled := places * UInt64.ofNat (Nat.pow 10 (digits.toNat - fraction.length))
  Word.checkedAdd (← checkedMul units unit) scaled

def parse (s : String) (digits : UInt8) : Except InvalidAmount UInt64 :=
  match ofChars? s.toList digits with
  | some raw => .ok raw
  | none => .error ⟨s⟩

def dropTrailingZeros (l : List Char) : List Char := (l.reverse.dropWhile (· = '0')).reverse

/-- Whole units, then a point and the places up to the last that is not zero, if there is one. More
than eight places are not scaled. -/
def chars (raw : UInt64) (digits : UInt8) : List Char :=
  match unit? digits with
  | none => Text.decimal raw.toNat
  | some unit =>
    let whole := Text.decimal (raw / unit).toNat
    let places := raw % unit
    if places = 0 then whole
    else whole ++ '.' :: dropTrailingZeros (Text.lastDigits digits.toNat places.toNat)

def format (raw : UInt64) (digits : UInt8) : String := String.ofList (chars raw digits)

end Amount

end CivicLedger
