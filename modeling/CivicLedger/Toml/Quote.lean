import CivicLedger.Bytes.Hex

/-!
# Texts written in TOML

A text is written in the first way that can hold it: between double quotes without escapes, between
single quotes, between three double quotes, between three single quotes, and only then with escapes.
-/

namespace CivicLedger.Toml

structure QuoteNeeds where
  /-- Has control characters other than tab and line feed. -/
  hasControls : Bool
  hasBackslash : Bool
  hasNewline : Bool
  /-- The longest run of double quotes. -/
  doubleRun : Nat
  /-- The longest run of single quotes. -/
  singleRun : Nat
  deriving DecidableEq, Repr

def isControl (c : Char) : Bool :=
  (c.toNat < 32 && c ≠ '\t' && c ≠ '\n') || c.toNat = 127

/-- The length of the longest run of a character, where `run` of it have just been passed. -/
def longestRun (c : Char) : List Char → Nat → Nat
  | [], run => run
  | d :: rest, run => if d = c then longestRun c rest (run + 1) else max run (longestRun c rest 0)

def QuoteNeeds.of (t : List Char) : QuoteNeeds where
  hasControls := t.any isControl
  hasBackslash := t.contains '\\'
  hasNewline := t.contains '\n'
  doubleRun := longestRun '"' t 0
  singleRun := longestRun '\'' t 0

inductive QuoteStyle where
  | basic
  | literal
  | basicBlock
  | literalBlock
  deriving DecidableEq, Repr

def QuoteNeeds.style (n : QuoteNeeds) : QuoteStyle :=
  if !n.hasControls && !n.hasBackslash && n.doubleRun = 0 && !n.hasNewline then .basic
  else if !n.hasControls && n.singleRun = 0 && !n.hasNewline then .literal
  else if !n.hasControls && !n.hasBackslash && n.doubleRun ≤ 2 then .basicBlock
  else if !n.hasControls && n.singleRun ≤ 2 then .literalBlock
  else if n.hasNewline then .basicBlock
  else .basic

def codeDigits (n : Nat) : List Char :=
  [n / 4096, n / 256, n / 16, n].map fun d => (Hex.digit (d % 16)).toUpper

def escapeChar (isBlock : Bool) (c : Char) : List Char :=
  if c = '\x08' then ['\\', 'b']
  else if c = '\t' then ['\\', 't']
  else if c = '\n' then if isBlock then [c] else ['\\', 'n']
  else if c = '\x0c' then ['\\', 'f']
  else if c = '\r' then ['\\', 'r']
  else if c = '\\' then ['\\', '\\']
  else if isControl c then '\\' :: 'u' :: codeDigits c.toNat
  else [c]

/-- The characters between double quotes: a quote is escaped after `allowed` of them in a row. -/
def escaped (isBlock : Bool) (allowed : Nat) : List Char → Nat → List Char
  | [], _ => []
  | c :: rest, run =>
    if c = '"' then
      if run < allowed then '"' :: escaped isBlock allowed rest (run + 1)
      else '\\' :: '"' :: escaped isBlock allowed rest 0
    else escapeChar isBlock c ++ escaped isBlock allowed rest 0

def quoteChars (t : List Char) : List Char :=
  let n := QuoteNeeds.of t
  let first := if n.hasNewline then ['\n'] else []
  match n.style with
  | .basic => '"' :: escaped false 0 t 0 ++ ['"']
  | .literal => '\'' :: t ++ ['\'']
  | .basicBlock => ['"', '"', '"'] ++ first ++ escaped true 2 t 0 ++ ['"', '"', '"']
  | .literalBlock => ['\'', '\'', '\''] ++ first ++ t ++ ['\'', '\'', '\'']

def quote (s : String) : String := String.ofList (quoteChars s.toList)

end CivicLedger.Toml
