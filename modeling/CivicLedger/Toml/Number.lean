import CivicLedger.Toml.Lexeme
import CivicLedger.Toml.Value

/-!
# Numbers and dates of TOML

Whole numbers are decimal, hexadecimal, octal or binary and fit into 64 bits with a sign. Digits may
be grouped by single underscores. Of dates, times and other numbers it is only told whether they are
well formed.
-/

namespace CivicLedger.Toml

def dropUnderscores (l : List Char) : List Char := l.filter (· ≠ '_')

/-- Digits of a kind, each underscore between two of them. -/
def readGroup (isDigit : Char → Bool) (i : Input) : Option (List Char × Input) :=
  let run := i.takeWhile fun c => isDigit c || c = '_'
  let rest := i.drop run.length
  let isSeparated := run.head? ≠ some '_' ∧ run.getLast? ≠ some '_' ∧
    (run.zip (run.drop 1)).all fun e => e.1 ≠ '_' || e.2 ≠ '_'
  if run ≠ [] ∧ isSeparated then some (dropUnderscores run, rest) else none

def readSign : Input → Bool × Input
  | '+' :: rest => (false, rest)
  | '-' :: rest => (true, rest)
  | i => (false, i)

/-- Decimal digits without needless zeros in front. -/
def readWhole (i : Input) : Option (List Char × Input) :=
  match i with
  | '0' :: rest => some (['0'], rest)
  | _ => readGroup Text.isDigit i

def signed? (isNegative : Bool) (n : Nat) : Option Toml :=
  if isNegative then if n ≤ UInt64.size / 2 then some (.integer (-(n : Int))) else none
  else if n < UInt64.size / 2 then some (.integer n) else none

def valueIn (base : Nat) (digits : List Char) : Nat :=
  digits.foldl (fun n c => n * base + (hexValue? c).getD 0) 0

def isDigitIn (base : Nat) (c : Char) : Bool :=
  match hexValue? c with
  | some d => d < base
  | none => false

def readBased (base : Nat) (i : Input) : Option (Toml × Input) := do
  let (digits, rest) ← readGroup (isDigitIn base) i
  return (← signed? false (valueIn base digits), rest)

def readInteger (i : Input) : Option (Toml × Input) :=
  match i with
  | '0' :: 'x' :: rest => readBased 16 rest
  | '0' :: 'o' :: rest => readBased 8 rest
  | '0' :: 'b' :: rest => readBased 2 rest
  | _ => do
    let (isNegative, rest) := readSign i
    let (digits, rest) ← readWhole rest
    return (← signed? isNegative (Text.valueOf digits), rest)

def isTooLarge (n : Nat) (e : Int) : Bool :=
  let bound := (Nat.pow 2 54 - 1) * Nat.pow 2 970
  let digits : Int := (Text.decimal n).length
  if n = 0 ∨ e + digits < 300 then false
  else if 320 < e + digits then true
  else if 0 ≤ e then bound ≤ n * Nat.pow 10 e.toNat
  else bound * Nat.pow 10 e.natAbs ≤ n

/-- The digits after the point and the exponent, of which there is at least one. -/
def readTail (i : Input) : Option ((List Char × Int) × Input) := do
  let (fraction, rest) ← match i with
    | '.' :: rest => readGroup Text.isDigit rest
    | _ => some ([], i)
  match rest with
  | c :: after =>
    if c = 'e' ∨ c = 'E' then
      let (isNegative, after) := readSign after
      let (digits, rest) ← readGroup Text.isDigit after
      let k : Int := Text.valueOf digits
      return ((fraction, if isNegative then -k else k), rest)
    else if fraction.isEmpty then none
    else return ((fraction, 0), rest)
  | [] => if fraction.isEmpty then none else return ((fraction, 0), rest)

def readReal (i : Input) : Option (Toml × Input) := do
  let (isNegative, rest) := readSign i
  match rest with
  | 'i' :: 'n' :: 'f' :: rest => return (.real, rest)
  | 'n' :: 'a' :: 'n' :: rest => return (.real, rest)
  | _ =>
    let (whole, rest) ← readWhole rest
    let ((fraction, exponent), rest) ← readTail rest
    let n := Text.valueOf (whole ++ fraction)
    guard (isNegative ∨ isTooLarge n (exponent - fraction.length) = false)
    return (.real, rest)

def readField (k low high : Nat) (i : Input) : Option (Nat × Input) :=
  let digits := i.take k
  let n := Text.valueOf digits
  if digits.length = k ∧ digits.all Text.isDigit ∧ low ≤ n ∧ n ≤ high then some (n, i.drop k)
  else none

def expect (c : Char) : Input → Option Input
  | d :: rest => if c = d then some rest else none
  | [] => none

def isLeapYear (year : Nat) : Bool := year % 4 = 0 && (year % 100 ≠ 0 || year % 400 = 0)

def daysIn (year month : Nat) : Nat :=
  if month = 2 then if isLeapYear year then 29 else 28
  else if month = 4 ∨ month = 6 ∨ month = 9 ∨ month = 11 then 30
  else 31

def readDate (i : Input) : Option Input := do
  let (year, rest) ← readField 4 0 9999 i
  let (month, rest) ← readField 2 1 12 (← expect '-' rest)
  let (_, rest) ← readField 2 1 (daysIn year month) (← expect '-' rest)
  return rest

def readTime (i : Input) : Option Input := do
  let (_, rest) ← readField 2 0 23 i
  let (_, rest) ← readField 2 0 59 (← expect ':' rest)
  let (_, rest) ← readField 2 0 60 (← expect ':' rest)
  match rest with
  | '.' :: c :: after =>
    if Text.isDigit c then return after.dropWhile Text.isDigit else return rest
  | _ => return rest

def skipOffset (i : Input) : Input :=
  let signed (rest : Input) : Option Input := do
    let (_, rest) ← readField 2 0 23 rest
    let (_, rest) ← readField 2 0 59 (← expect ':' rest)
    return rest
  match i with
  | 'Z' :: rest => rest
  | 'z' :: rest => rest
  | '+' :: rest => (signed rest).getD i
  | '-' :: rest => (signed rest).getD i
  | _ => i

def isTimeMark (c : Char) : Bool := c = 'T' || c = 't' || c = ' '

def readMoment (i : Input) : Option (Toml × Input) :=
  match readDate i with
  | some (c :: rest) =>
    match if isTimeMark c then readTime rest else none with
    | some rest => some (.moment, skipOffset rest)
    | none => some (.moment, c :: rest)
  | some [] => some (.moment, [])
  | none => (readTime i).map fun rest => (.moment, rest)

def readNumber (i : Input) : Option (Toml × Input) :=
  (readMoment i).or ((readReal i).or (readInteger i))

end CivicLedger.Toml
