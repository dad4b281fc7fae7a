import CivicLedger.Text.Digits

/-!
# Blanks, texts and keys of TOML

Reading takes what it reads from the front of the input. A text stands between single or double
quotes, one or three of them; only double quotes know escapes, and only three quotes know more than
one line.
-/

namespace CivicLedger.Toml

abbrev Input := List Char

def isBlank (c : Char) : Bool := c = ' ' || c = '\t'

def skipBlanks (i : Input) : Input := i.dropWhile isBlank

/-- What follows an end of line. -/
def newline? : Input → Option Input
  | '\n' :: rest => some rest
  | '\r' :: '\n' :: rest => some rest
  | _ => none

def isCommentChar (c : Char) : Bool := c = '\t' || 32 ≤ c.toNat

def skipComment : Input → Input
  | '#' :: rest => rest.dropWhile isCommentChar
  | i => i

/-- What follows the rest of a line, in which only blanks and a comment may stand. -/
def lineEnd? (i : Input) : Option Input :=
  match skipComment (skipBlanks i) with
  | [] => some []
  | i => newline? i

def skipLines : Nat → Input → Option Input
  | 0, _ => none
  | fuel + 1, i =>
    match i with
    | '#' :: _ => do skipLines fuel (← newline? (skipComment i))
    | c :: rest =>
      if isBlank c then skipLines fuel rest
      else
        match newline? i with
        | some rest => skipLines fuel rest
        | none => some i
    | [] => some []

def isTextChar (c : Char) : Bool := c = '\t' || (32 ≤ c.toNat && c.toNat ≠ 127)

def hexValue? (c : Char) : Option Nat :=
  if Text.isDigit c then some (Text.digitValue c)
  else if 'a' ≤ c ∧ c ≤ 'f' then some (c.toNat - 87)
  else if 'A' ≤ c ∧ c ≤ 'F' then some (c.toNat - 55)
  else none

def scalar? (digits : List Char) : Option Char := do
  let n := (← digits.mapM hexValue?).foldl (fun n d => n * 16 + d) 0
  if n.isValidChar then return Char.ofNat n else none

def escape? (c : Char) : Option Char :=
  if c = '"' ∨ c = '\\' then some c
  else if c = 'b' then some '\x08'
  else if c = 't' then some '\t'
  else if c = 'n' then some '\n'
  else if c = 'f' then some '\x0c'
  else if c = 'r' then some '\r'
  else none

/-- An escaped character after its backslash. -/
def readEscape : Input → Option (Char × Input)
  | 'u' :: rest => do
    let c ← scalar? (rest.take 4)
    if rest.length < 4 then none else return (c, rest.drop 4)
  | 'U' :: rest => do
    let c ← scalar? (rest.take 8)
    if rest.length < 8 then none else return (c, rest.drop 8)
  | c :: rest => do return (← escape? c, rest)
  | [] => none

def readBasic : Nat → Input → Option (List Char × Input)
  | 0, _ => none
  | fuel + 1, i =>
    match i with
    | '"' :: rest => some ([], rest)
    | '\\' :: rest => do
      let (c, rest) ← readEscape rest
      let (t, rest) ← readBasic fuel rest
      return (c :: t, rest)
    | c :: rest => do
      guard (isTextChar c)
      let (t, rest) ← readBasic fuel rest
      return (c :: t, rest)
    | [] => none

def readLiteral : Input → Option (List Char × Input)
  | '\'' :: rest => some ([], rest)
  | c :: rest => do
    guard (isTextChar c)
    let (t, rest) ← readLiteral rest
    return (c :: t, rest)
  | [] => none

/-- What follows a backslash at the end of a line: blanks and line ends are left out up to the next
character. -/
def joinLines? (i : Input) : Option Input := do
  let rest ← newline? (skipBlanks i)
  return rest.dropWhile fun c => isBlank c || c = '\n' || c = '\r'

/-- A run of quotes inside a text of several lines: fewer than three belong to it, and of up to five
all but the last three do. Tells whether the text ends. -/
def readQuotes (quote : Char) (i : Input) : Option (List Char × Bool × Input) :=
  let run := (i.takeWhile (· = quote)).length
  let rest := i.dropWhile (· = quote)
  if run < 3 then some (List.replicate run quote, false, rest)
  else if run ≤ 5 then some (List.replicate (run - 3) quote, true, rest)
  else none

def readBlock (quote : Char) : Nat → Input → Option (List Char × Input)
  | 0, _ => none
  | fuel + 1, i =>
    match i with
    | [] => none
    | c :: rest =>
      if c = quote then do
        let (quotes, ends, rest) ← readQuotes quote i
        if ends then return (quotes, rest)
        let (t, rest) ← readBlock quote fuel rest
        return (quotes ++ t, rest)
      else if c = '\\' ∧ quote = '"' then
        match joinLines? rest with
        | some rest => readBlock quote fuel rest
        | none => do
          let (c, rest) ← readEscape rest
          let (t, rest) ← readBlock quote fuel rest
          return (c :: t, rest)
      else
        match newline? i with
        | some rest => do
          let (t, rest) ← readBlock quote fuel rest
          return ('\n' :: t, rest)
        | none => do
          guard (isTextChar c)
          let (t, rest) ← readBlock quote fuel rest
          return (c :: t, rest)

/-- A line end right after three opening quotes is left out. -/
def skipFirstNewline (i : Input) : Input := (newline? i).getD i

def readText : Input → Option (List Char × Input)
  | '"' :: '"' :: '"' :: rest => readBlock '"' (rest.length + 1) (skipFirstNewline rest)
  | '\'' :: '\'' :: '\'' :: rest => readBlock '\'' (rest.length + 1) (skipFirstNewline rest)
  | '"' :: rest => readBasic (rest.length + 1) rest
  | '\'' :: rest => readLiteral rest
  | _ => none

def isBareChar (c : Char) : Bool :=
  Text.isDigit c || ('a' ≤ c && c ≤ 'z') || ('A' ≤ c && c ≤ 'Z') || c = '_' || c = '-'

/-- A part of a key: bare, or a text on one line. -/
def readKeyPart (i : Input) : Option (String × Input) :=
  match i with
  | '"' :: rest => (readBasic (rest.length + 1) rest).map fun (t, rest) => (String.ofList t, rest)
  | '\'' :: rest => (readLiteral rest).map fun (t, rest) => (String.ofList t, rest)
  | _ =>
    let bare := i.takeWhile isBareChar
    if bare.isEmpty then none else some (String.ofList bare, i.dropWhile isBareChar)

def readKeyParts : Nat → Input → Option (List String × Input)
  | 0, _ => none
  | fuel + 1, i => do
    let (part, rest) ← readKeyPart (skipBlanks i)
    match skipBlanks rest with
    | '.' :: rest =>
      let (parts, rest) ← readKeyParts fuel rest
      return (part :: parts, rest)
    | rest => return ([part], rest)

/-- A key has fewer parts than this, and values are nested less deep. -/
def depthLimit : Nat := 80

def readKey (i : Input) : Option ((List String × String) × Input) := do
  let (parts, rest) ← readKeyParts (i.length + 1) i
  if depthLimit ≤ parts.length then none
  else return ((parts.dropLast, ← parts.getLast?), rest)

end CivicLedger.Toml
