/-!
# JSON texts

A JSON text as it is written: numbers keep their digits and texts their escapes, so that a part that
nobody reads need not have a value. Reading refuses what the grammar refuses: bare control
characters, needless zeros in front of numbers, commas at the end, and text after the value.
-/

namespace CivicLedger.Json

/-- A piece of a text: a character, or a 16-bit unit written by number. -/
inductive Glyph where
  | char (c : Char)
  | unit (n : Nat)
  deriving DecidableEq, Repr

/-- A number as it is written. Without a point there is no fraction. -/
structure Numeral where
  negative : Bool
  whole : List Char
  fraction : List Char
  /-- Whether the exponent is negative, and its digits. -/
  exponent? : Option (Bool × List Char)
  deriving DecidableEq, Repr

inductive Tree where
  | null
  | flag (b : Bool)
  | number (n : Numeral)
  | text (t : List Glyph)
  | array (items : List Tree)
  | object (fields : List (List Glyph × Tree))
  deriving Repr

namespace Tree

abbrev Input := List Char

def isSpace (c : Char) : Bool := c = ' ' || c = '\n' || c = '\t' || c = '\r'

def skip (i : Input) : Input := i.dropWhile isSpace

def isDigit (c : Char) : Bool := '0' ≤ c && c ≤ '9'

def hexValue? (c : Char) : Option Nat :=
  if isDigit c then some (c.toNat - 48)
  else if 'a' ≤ c ∧ c ≤ 'f' then some (c.toNat - 87)
  else if 'A' ≤ c ∧ c ≤ 'F' then some (c.toNat - 55)
  else none

def hexUnit? (a b c d : Char) : Option Nat := do
  return (((← hexValue? a) * 16 + (← hexValue? b)) * 16 + (← hexValue? c)) * 16 + (← hexValue? d)

def escape? (c : Char) : Option Char :=
  if c = '"' ∨ c = '\\' ∨ c = '/' then some c
  else if c = 'b' then some '\x08'
  else if c = 'f' then some '\x0c'
  else if c = 'n' then some '\n'
  else if c = 'r' then some '\r'
  else if c = 't' then some '\t'
  else none

/-- The rest of a text after its opening quote, and the input after its closing one. -/
def readGlyphs : Input → Option (List Glyph × Input)
  | '"' :: rest => some ([], rest)
  | '\\' :: 'u' :: a :: b :: c :: d :: rest => do
    let n ← hexUnit? a b c d
    let (t, rest) ← readGlyphs rest
    return (.unit n :: t, rest)
  | '\\' :: c :: rest => do
    let e ← escape? c
    let (t, rest) ← readGlyphs rest
    return (.char e :: t, rest)
  | c :: rest =>
    if c.toNat < 32 ∨ c = '\\' then none
    else do
      let (t, rest) ← readGlyphs rest
      return (.char c :: t, rest)
  | [] => none

def readDigits (i : Input) : List Char × Input := (i.takeWhile isDigit, i.dropWhile isDigit)

def readExponent (i : Input) : Option ((Bool × List Char) × Input) :=
  let (negative, i) := match i with
    | '+' :: rest => (false, rest)
    | '-' :: rest => (true, rest)
    | _ => (false, i)
  let (digits, rest) := readDigits i
  if digits.isEmpty then none else some ((negative, digits), rest)

def readFraction (i : Input) : Option (List Char × Input) :=
  match i with
  | '.' :: rest =>
    let (digits, rest) := readDigits rest
    if digits.isEmpty then none else some (digits, rest)
  | _ => some ([], i)

def readNumber (negative : Bool) (i : Input) : Option (Numeral × Input) := do
  let (whole, rest) := readDigits i
  if whole.isEmpty ∨ (whole.head? = some '0' ∧ 1 < whole.length) then none
  let (fraction, rest) ← readFraction rest
  match rest with
  | c :: after =>
    if c = 'e' ∨ c = 'E' then
      let (e, rest) ← readExponent after
      return (⟨negative, whole, fraction, some e⟩, rest)
    else return (⟨negative, whole, fraction, none⟩, rest)
  | [] => return (⟨negative, whole, fraction, none⟩, rest)

mutual

/-- A value at the front of the input; `fuel` bounds the count of nested values and members. -/
def readValue : Nat → Input → Option (Tree × Input)
  | 0, _ => none
  | fuel + 1, i =>
    match skip i with
    | 'n' :: 'u' :: 'l' :: 'l' :: rest => some (null, rest)
    | 't' :: 'r' :: 'u' :: 'e' :: rest => some (flag true, rest)
    | 'f' :: 'a' :: 'l' :: 's' :: 'e' :: rest => some (flag false, rest)
    | '"' :: rest => (readGlyphs rest).map fun (t, rest) => (text t, rest)
    | '[' :: rest =>
      match skip rest with
      | ']' :: rest => some (array [], rest)
      | rest => (readItems fuel rest).map fun (items, rest) => (array items, rest)
    | '{' :: rest =>
      match skip rest with
      | '}' :: rest => some (object [], rest)
      | rest => (readFields fuel rest).map fun (fields, rest) => (object fields, rest)
    | '-' :: rest => (readNumber true rest).map fun (n, rest) => (number n, rest)
    | rest => (readNumber false rest).map fun (n, rest) => (number n, rest)

def readItems : Nat → Input → Option (List Tree × Input)
  | 0, _ => none
  | fuel + 1, i => do
    let (item, rest) ← readValue fuel i
    match skip rest with
    | ',' :: rest =>
      let (items, rest) ← readItems fuel rest
      return (item :: items, rest)
    | ']' :: rest => return ([item], rest)
    | _ => none

def readFields : Nat → Input → Option (List (List Glyph × Tree) × Input)
  | 0, _ => none
  | fuel + 1, i => do
    let .cons '"' rest := skip i | none
    let (name, rest) ← readGlyphs rest
    let .cons ':' rest := skip rest | none
    let (value, rest) ← readValue fuel rest
    match skip rest with
    | ',' :: rest =>
      let (fields, rest) ← readFields fuel rest
      return ((name, value) :: fields, rest)
    | '}' :: rest => return ([(name, value)], rest)
    | _ => none

end

def ofChars? (i : Input) : Option Tree := do
  let (t, rest) ← readValue (2 * i.length + 2) i
  if (skip rest).isEmpty then return t else none

def ofText? (s : String) : Option Tree := ofChars? s.toList

end Tree

end CivicLedger.Json
