import CivicLedger.Bytes.Hex
import CivicLedger.Json.Tree
import CivicLedger.Number.Binary64
import CivicLedger.Number.Shortest
import CivicLedger.Number.Word

/-!
# JSON values

The value of a JSON text. Whole numbers of 64 bits are exact; all others are binary numbers, made
from the digits that fit into 64 bits by one multiplication or division. A text that is too deep,
that holds half of a surrogate pair, or a number too large has no value. Values are printed without
spaces or indented.
-/

namespace CivicLedger

inductive Json where
  | null
  | flag (b : Bool)
  /-- A whole number of 64 bits. -/
  | nat (n : UInt64)
  /-- A negative whole number by its magnitude, at most `2 ^ 63`. -/
  | negative (magnitude : Nat)
  | real (x : Binary64)
  | text (s : String)
  | array (items : List Json)
  /-- Fields in the order written, no two of one name. -/
  | object (fields : List (String × Json))
  deriving Repr

namespace Json

/-- Reads digits while the significand fits into 64 bits: the significand, how many digits it
took, and those left. -/
def significand : List Char → Nat → Nat → Nat × Nat × List Char
  | [], n, taken => (n, taken, [])
  | c :: rest, n, taken =>
    let next := n * 10 + Text.digitValue c
    if next < UInt64.size then significand rest next (taken + 1) else (n, taken, c :: rest)

/-- `n * 10 ^ e` for an exponent within the table of powers, by one rounding; smaller ones are
divided down in steps of `10 ^ 308`. -/
def scale : Nat → Binary64 → Int → Option Binary64
  | 0, _, _ => none
  | fuel + 1, x, e =>
    if e.natAbs ≤ 308 then do
      let power ← Binary64.ofNat (Nat.pow 10 e.natAbs)
      if 0 ≤ e then x.mul power else x.div power
    else if x.isZero then some x
    else if 0 ≤ e then none
    else do scale fuel (← x.div (← Binary64.ofNat (Nat.pow 10 308))) (e + 308)

def realOf (isNegative : Bool) (n : Nat) (e : Int) : Option Json := do
  let x ← Binary64.ofNat n
  let y ← scale (e.natAbs / 308 + 2) x e
  return real (if isNegative then y.neg else y)

/-- The largest exponent that is kept: beyond it a number is zero or too large. -/
def maxExponent : Nat := UInt32.size / 2 - 1

/-- Applies a written exponent to a significand that already has the exponent `e`. -/
def withExponent (isNegative : Bool) (n : Nat) (e : Int) : Option (Bool × List Char) → Option Json
  | none => realOf isNegative n e
  | some (down, digits) =>
    let k := Text.valueOf digits
    if maxExponent < k then
      if n ≠ 0 ∧ down = false then none
      else some (real (if isNegative then Binary64.zero.neg else Binary64.zero))
    else realOf isNegative n (if down then e - k else e + k)

def ofNumeral? (n : Numeral) : Option Json :=
  let (whole, _, dropped) := significand n.whole 0 0
  if n.fraction = [] ∧ n.exponent? = none ∧ dropped = [] then
    if n.negative = false then some (nat (UInt64.ofNat whole))
    else if whole ≠ 0 ∧ whole ≤ UInt64.size / 2 then some (negative whole)
    else (Binary64.ofNat whole).map fun x => real x.neg
  else
    let (all, taken, _) := significand n.fraction whole 0
    withExponent n.negative all ((dropped.length : Int) - taken) n.exponent?

def isHighSurrogate (n : Nat) : Bool := 0xD800 ≤ n && n ≤ 0xDBFF
def isLowSurrogate (n : Nat) : Bool := 0xDC00 ≤ n && n ≤ 0xDFFF

/-- The characters of a text; surrogates must come in pairs. -/
def charsOf? : List Glyph → Option (List Char)
  | [] => some []
  | .char c :: rest => (charsOf? rest).map (c :: ·)
  | .unit n :: .unit m :: rest =>
    if isHighSurrogate n then
      if isLowSurrogate m then
        (charsOf? rest).map (Char.ofNat (0x10000 + (n - 0xD800) * 0x400 + (m - 0xDC00)) :: ·)
      else none
    else if isLowSurrogate n then none
    else (charsOf? (.unit m :: rest)).map (Char.ofNat n :: ·)
  | .unit n :: rest =>
    if isHighSurrogate n || isLowSurrogate n then none
    else (charsOf? rest).map (Char.ofNat n :: ·)

def textOf? (t : List Glyph) : Option String := (charsOf? t).map String.ofList

/-- Sets a field; a field of the name that is there already keeps its place. -/
def setField (name : String) (v : Json) : List (String × Json) → List (String × Json)
  | [] => [(name, v)]
  | (n, w) :: rest => if n = name then (n, v) :: rest else (n, w) :: setField name v rest

/-- Containers may be nested so deep, the outermost one counted. -/
def maxDepth : Nat := 127

mutual

def ofTree? (depth : Nat) : Tree → Option Json
  | .null => some null
  | .flag b => some (flag b)
  | .number n => ofNumeral? n
  | .text t => (textOf? t).map text
  | .array items => if depth = 0 then none else (ofItems? (depth - 1) items).map array
  | .object fields =>
    if depth = 0 then none else (ofFields? (depth - 1) fields []).map object

def ofItems? (depth : Nat) : List Tree → Option (List Json)
  | [] => some []
  | t :: rest => do
    let v ← ofTree? depth t
    return v :: (← ofItems? depth rest)

/-- Adds fields from the left: of two of one name the later one stays. -/
def ofFields? (depth : Nat) : List (List Glyph × Tree) → List (String × Json) →
    Option (List (String × Json))
  | [], done => some done
  | (name, t) :: rest, done => do
    let name ← textOf? name
    let v ← ofTree? depth t
    ofFields? depth rest (setField name v done)

end

def ofText? (s : String) : Option Json := do ofTree? maxDepth (← Tree.ofText? s)

def isNull : Json → Bool
  | null => true
  | _ => false

/-- Exponents from `10 ^ 16` on and below `10 ^ -5`, and always a point. -/
def realLayout : RealLayout := ⟨-4, 16, true⟩

def escapeChar (c : Char) : List Char :=
  if c = '"' then ['\\', '"']
  else if c = '\\' then ['\\', '\\']
  else if c = '\n' then ['\\', 'n']
  else if c = '\r' then ['\\', 'r']
  else if c = '\t' then ['\\', 't']
  else if c = '\x08' then ['\\', 'b']
  else if c = '\x0c' then ['\\', 'f']
  else if c.toNat < 32 then
    ['\\', 'u', '0', '0', Hex.digit (c.toNat / 16), Hex.digit (c.toNat % 16)]
  else [c]

def quote (s : String) : String := "\"" ++ String.ofList (s.toList.flatMap escapeChar) ++ "\""

def numberText? : Json → Option String
  | nat n => some (toString n.toNat)
  | negative m => some ("-" ++ toString m)
  | real x => some (realLayout.text x)
  | _ => none

mutual

def print : Json → String
  | null => "null"
  | flag b => if b then "true" else "false"
  | nat n => toString n.toNat
  | negative m => "-" ++ toString m
  | real x => realLayout.text x
  | text s => quote s
  | array items => "[" ++ ",".intercalate (printItems items) ++ "]"
  | object fields => "\x7b" ++ ",".intercalate (printFields fields) ++ "\x7d"

def printItems : List Json → List String
  | [] => []
  | v :: rest => print v :: printItems rest

def printFields : List (String × Json) → List String
  | [] => []
  | (name, v) :: rest => (quote name ++ ":" ++ print v) :: printFields rest

end

/-- An object of numbers and texts, a field to a line, indented by two spaces. -/
def printLines (fields : List (String × Json)) : List String :=
  match fields.reverse with
  | [] => ["\x7b\x7d"]
  | (name, v) :: rest =>
    let line (e : String × Json) := "  " ++ quote e.1 ++ ": " ++ print e.2
    ["\x7b"] ++ rest.reverse.map (fun e => line e ++ ",") ++ [line (name, v)] ++ ["\x7d"]

end Json

end CivicLedger
