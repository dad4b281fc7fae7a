import CivicLedger.Number.Binary64
import CivicLedger.Text.Digits

/-!
# The fewest digits that read back

A binary number stands for all the reals that round to it. Among the decimals in that interval the
one with the fewest digits is written, and of those with as many the nearest one.
-/

namespace CivicLedger

structure Decimal where
  digits : Nat
  exponent : Int
  deriving DecidableEq, Repr

namespace Shortest

/-- A multiple of a quarter of the last place: `count * num / den`. -/
structure Grid where
  num : Nat
  den : Nat

def gridOf (x : Binary64) : Grid :=
  let e := x.exponent - 2
  if 0 ≤ e then ⟨Nat.pow 2 e.toNat, 1⟩ else ⟨1, Nat.pow 2 (-e).toNat⟩

/-- The ends of the interval in quarters of the last place. Below a power of two the gap is half as
wide. -/
def bounds (x : Binary64) : Nat × Nat :=
  let below := if x.mantissa = Nat.pow 2 52 ∧ Binary64.minExponent < x.exponent then 1 else 2
  (4 * x.mantissa - below, 4 * x.mantissa + 2)

/-- The ends belong to the interval where the mantissa is even. -/
def within (x : Binary64) (g : Grid) (d : Decimal) : Bool :=
  let (low, high) := bounds x
  let (n, m) := if 0 ≤ d.exponent then (d.digits * Nat.pow 10 d.exponent.toNat, 1)
    else (d.digits, Nat.pow 10 (-d.exponent).toNat)
  let value := n * g.den
  let low := low * g.num * m
  let high := high * g.num * m
  if x.mantissa % 2 = 0 then low ≤ value && value ≤ high else low < value && value < high

/-- How many digits stand before the point; for a number below one, minus the count of zeros
after it. -/
def pointPlace (num den : Nat) : Int :=
  if den ≤ num then ((Text.decimal (num / den)).length : Int)
  else -(((List.range 400).findIdx fun k => den ≤ num * Nat.pow 10 (k + 1) : Nat) : Int)

/-- The two neighbours of the number with `n` digits, the nearer one first. -/
def neighbours (num den : Nat) (place : Int) (n : Nat) : List Decimal :=
  let exponent := place - n
  let (a, b) := if 0 ≤ exponent then (num, den * Nat.pow 10 exponent.toNat)
    else (num * Nat.pow 10 (-exponent).toNat, den)
  let down : Decimal := ⟨a / b, exponent⟩
  let up : Decimal := ⟨a / b + 1, exponent⟩
  if Binary64.roundHalfEven a b = a / b then [down, up] else [up, down]

def ofBinary (x : Binary64) : Decimal :=
  let (num, den) := x.magnitude
  let place := pointPlace num den
  let g := gridOf x
  (((List.range 17).flatMap fun n => neighbours num den place (n + 1)).find? (within x g)).getD
    ⟨num / den, 0⟩

/-- Without zeros at the end, as digits and the place of the point among them. -/
def pointed (d : Decimal) : List Char × Int :=
  let all := Text.decimal d.digits
  let kept := (all.reverse.dropWhile (· = '0')).reverse
  (kept, (all.length : Int) + d.exponent)

end Shortest

structure RealLayout where
  /-- Numbers with the point at most so far to the left or right are written without exponent. -/
  leftmost : Int
  rightmost : Int
  /-- Whole numbers end in a point and a zero. -/
  wholePoint : Bool

namespace RealLayout

def positional (r : RealLayout) (digits : List Char) (point : Int) : List Char :=
  if point ≤ 0 then '0' :: '.' :: (List.replicate (-point).toNat '0' ++ digits)
  else
    let n := point.toNat
    if n < digits.length then digits.take n ++ '.' :: digits.drop n
    else
      digits ++ List.replicate (n - digits.length) '0' ++ if r.wholePoint then ['.', '0'] else []

def scientific (digits : List Char) (point : Int) : List Char :=
  let fraction := digits.drop 1
  let e := point - 1
  digits.take 1 ++ (if fraction.isEmpty then [] else '.' :: fraction) ++
    'e' :: (if e < 0 then '-' else '+') :: Text.decimal e.natAbs

def chars (r : RealLayout) (x : Binary64) : List Char :=
  let sign := if x.negative then ['-'] else []
  if x.isZero then sign ++ '0' :: (if r.wholePoint then ['.', '0'] else [])
  else
    let (digits, point) := Shortest.pointed (Shortest.ofBinary x)
    sign ++
      if r.leftmost ≤ point ∧ point ≤ r.rightmost then r.positional digits point
      else scientific digits point

def text (r : RealLayout) (x : Binary64) : String := String.ofList (r.chars x)

end RealLayout

end CivicLedger
