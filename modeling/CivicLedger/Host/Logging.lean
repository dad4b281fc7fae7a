import CivicLedger.Text.Blank
import CivicLedger.Text.Digits

/-!
# Logging

How a log is written and which events it takes. A filter is a list of directives between commas;
a directive names a level, or a target, a span with a field of it, or both, and a level for them.
-/

namespace CivicLedger

inductive LogFormat where
  | human
  | json
  deriving DecidableEq, Repr

structure UnknownLogFormat where
  /-- In lower case. -/
  text : String
  deriving DecidableEq, Repr

def UnknownLogFormat.message (e : UnknownLogFormat) : String :=
  "unknown log format '" ++ e.text ++ "' (expected human or json)"

namespace LogFormat

def name : LogFormat → String
  | human => "human"
  | json => "json"

def ofName? (s : String) : Option LogFormat := [human, json].find? (·.name = s)

/-- A name in any mixture of ASCII cases; plain text is for people too. -/
def parse (s : String) : Except UnknownLogFormat LogFormat :=
  let name := s.toLower
  if name = "text" then .ok human
  else
    match ofName? name with
    | some f => .ok f
    | none => .error ⟨name⟩

end LogFormat

namespace LogFilter

def levels : List String := ["off", "error", "warn", "info", "debug", "trace"]

/-- A level by its name in any mixture of cases or by its place among the levels. -/
def isLevel (l : List Char) : Bool :=
  levels.contains (String.ofList l).toLower ||
    match Text.word? l with
    | some n => n.toNat < levels.length
    | none => false

def beginsTarget (c : Char) : Bool :=
  c.isAlphanum || 128 ≤ c.toNat || c = '-' || c = ':' || c = '_'

inductive Ending where
  | plain
  /-- An equals sign and the level, which may be left out. -/
  | level
  deriving DecidableEq, Repr

def ending? : List Char → Option Ending
  | [] => some .plain
  | '=' :: level => if level.isEmpty || isLevel level then some .level else none
  | _ => none

/-- The ending after a span whose opening bracket has been read. -/
def spanEnding? (l : List Char) : Option Ending :=
  match l.dropWhile fun c => c ≠ ']' && c ≠ '\x7b' with
  | ']' :: rest => ending? rest
  | '\x7b' :: rest =>
    match rest.span (· ≠ '\x7d') with
    | (_ :: _, '\x7d' :: ']' :: rest) => ending? rest
    | _ => none
  | _ => none

def directiveEnding? (l : List Char) : Option Ending :=
  match l with
  | '[' :: rest => spanEnding? rest
  | c :: _ =>
    if beginsTarget c then
      match l.dropWhile fun c => c ≠ '=' && c ≠ '[' with
      | '[' :: rest => spanEnding? rest
      | rest => ending? rest
    else none
  | [] => none

/-- Blanks around a directive are passed over unless it ends in a level. -/
def isPart (l : List Char) : Bool :=
  let t := Text.trimChars l
  match directiveEnding? t with
  | some .plain => true
  | some .level => t = l
  | none => false

def parts : List Char → List Char → List (List Char)
  | part, [] => [part.reverse]
  | part, c :: rest => if c = ',' then part.reverse :: parts [] rest else parts (c :: part) rest

/-- Whether a text is a filter; empty parts are passed over. -/
def isValid (s : String) : Bool :=
  (parts [] s.toList).all fun part => part.isEmpty || isPart part

end LogFilter

end CivicLedger
