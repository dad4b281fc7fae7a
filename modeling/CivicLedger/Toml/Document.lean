import CivicLedger.Toml.Number

/-!
# TOML documents

A document is read line by line: fields belong to the table of the last header. Nothing is read from
a document with a fault.
-/

namespace CivicLedger.Toml

mutual

/-- A value; `fuel` bounds the count of nested values and members, `depth` how deep they nest. -/
def readValue : Nat → Nat → Input → Option (Toml × Input)
  | 0, _, _ => none
  | fuel + 1, depth, i =>
    match i with
    | '"' :: _ => (readText i).map fun (t, rest) => (.text (String.ofList t), rest)
    | '\'' :: _ => (readText i).map fun (t, rest) => (.text (String.ofList t), rest)
    | '[' :: rest =>
      match depth with
      | 0 => none
      | depth + 1 => (readItems fuel depth rest).map fun (items, rest) => (.array items, rest)
    | '{' :: rest =>
      match depth with
      | 0 => none
      | depth + 1 =>
        match skipBlanks rest with
        | '}' :: rest => some (.table .inline [], rest)
        | rest =>
          (readFields fuel depth [] rest).map fun (fields, rest) => (.table .inline fields, rest)
    | 't' :: 'r' :: 'u' :: 'e' :: rest => some (.flag true, rest)
    | 'f' :: 'a' :: 'l' :: 's' :: 'e' :: rest => some (.flag false, rest)
    | _ => readNumber i

def readItems : Nat → Nat → Input → Option (List Toml × Input)
  | 0, _, _ => none
  | fuel + 1, depth, i => do
    match ← skipLines (i.length + 1) i with
    | ']' :: rest => return ([], rest)
    | rest =>
      let (item, rest) ← readValue fuel depth rest
      match ← skipLines (rest.length + 1) rest with
      | ',' :: rest =>
        let (items, rest) ← readItems fuel depth rest
        return (item :: items, rest)
      | ']' :: rest => return ([item], rest)
      | _ => none

/-- The fields of a table between braces up to the closing one, all on one line. -/
def readFields : Nat → Nat → Fields → Input → Option (Fields × Input)
  | 0, _, _, _ => none
  | fuel + 1, depth, done, i => do
    let ((path, name), rest) ← readKey i
    let rest ← expect '=' rest
    let (v, rest) ← readValue fuel depth (skipBlanks rest)
    let done ← assign path name v .inline done
    match skipBlanks rest with
    | ',' :: rest => readFields fuel depth done rest
    | '}' :: rest => return (done, rest)
    | _ => none

end

structure Draft where
  fields : Fields
  /-- The path of the last header. -/
  path : List String

namespace Draft

def empty : Draft := ⟨[], []⟩

def assign (d : Draft) (path : List String) (name : String) (v : Toml) : Option Draft := do
  return { d with fields := ← change false (Toml.assign path name v) d.path .header d.fields }

def header (d : Draft) (path : List String) (name : String) : Option Draft := do
  return ⟨← openTable path name d.fields, path ++ [name]⟩

def item (d : Draft) (path : List String) (name : String) : Option Draft := do
  return ⟨← openItem path name d.fields, path ++ [name]⟩

end Draft

def readHeader (d : Draft) : Input → Option (Draft × Input)
  | '[' :: '[' :: rest => do
    let ((path, name), rest) ← readKey rest
    let rest ← lineEnd? (← expect ']' (← expect ']' rest))
    return (← d.item path name, rest)
  | '[' :: rest => do
    let ((path, name), rest) ← readKey rest
    let rest ← lineEnd? (← expect ']' rest)
    return (← d.header path name, rest)
  | _ => none

def readField? (d : Draft) (i : Input) : Option (Draft × Input) := do
  let ((path, name), rest) ← readKey i
  let rest ← expect '=' rest
  let (v, rest) ← readValue (2 * i.length + 2) (depthLimit - 1) (skipBlanks rest)
  return (← d.assign path name v, ← lineEnd? rest)

def readDocument : Nat → Draft → Input → Option Fields
  | 0, _, _ => none
  | fuel + 1, d, i =>
    match skipBlanks i with
    | [] => some d.fields
    | '#' :: rest => do readDocument fuel d (← lineEnd? ('#' :: rest))
    | '[' :: rest => do
      let (d, rest) ← readHeader d ('[' :: rest)
      readDocument fuel d rest
    | i =>
      match newline? i with
      | some rest => readDocument fuel d rest
      | none => do
        let (d, rest) ← readField? d i
        readDocument fuel d rest

def byteOrderMark : Char := '\uFEFF'

def fieldsOf? (s : String) : Option Fields :=
  let i := match s.toList with
    | c :: rest => if c = byteOrderMark then rest else c :: rest
    | [] => []
  readDocument (i.length + 1) .empty i

end CivicLedger.Toml
