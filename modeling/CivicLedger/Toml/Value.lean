/-!
# TOML values

A document is a table. Tables remember how they came about, because that decides whether a header
or a dotted key may add to them: no table is defined twice.
-/

namespace CivicLedger

inductive TableOrigin where
  /-- By a header of its own, or as the whole document. -/
  | header
  /-- On the path of another table's header. -/
  | passage
  | dottedKey
  /-- Between braces. -/
  | inline
  deriving DecidableEq, Repr

inductive Toml where
  | text (s : String)
  | integer (n : Int)
  /-- A number with a point or an exponent; its value is not kept. -/
  | real
  /-- A date, a time or both; its value is not kept. -/
  | moment
  | flag (b : Bool)
  | array (items : List Toml)
  | table (origin : TableOrigin) (fields : List (String × Toml))
  /-- The tables that headers in double brackets have begun. -/
  | tables (items : List (List (String × Toml)))
  deriving Repr

namespace Toml

abbrev Fields := List (String × Toml)

def setField (name : String) (v : Toml) : Fields → Fields
  | [] => [(name, v)]
  | (n, w) :: rest => if n = name then (n, v) :: rest else (n, w) :: setField name v rest

/-- Whether a path may lead through a table. -/
def mayPass (isDotted : Bool) : TableOrigin → Bool
  | .header => !isDotted
  | .inline => false
  | _ => true

/-- Changes the table that a path leads to, and makes the tables that are missing on the way. A path
leads into the last of several tables under one name. -/
def change (isDotted : Bool) (f : TableOrigin → Fields → Option Fields) :
    List String → TableOrigin → Fields → Option Fields
  | [], origin, fields => f origin fields
  | name :: rest, _, fields =>
    match fields.lookup name with
    | none => do
      let origin := if isDotted then TableOrigin.dottedKey else .passage
      return setField name (.table origin (← change isDotted f rest origin [])) fields
    | some (.table origin sub) => do
      guard (mayPass isDotted origin)
      return setField name (.table origin (← change isDotted f rest origin sub)) fields
    | some (.tables items) => do
      let sub ← change isDotted f rest .header (← items.getLast?)
      return setField name (.tables (items.dropLast ++ [sub])) fields
    | some _ => none

/-- Adds a field to a table, unless it is there or the table came about in another way than the
path to it asks for. -/
def define (isDotted : Bool) (name : String) (v : Toml) (origin : TableOrigin)
    (fields : Fields) : Option Fields :=
  if decide (origin = .dottedKey) = isDotted ∧ (fields.lookup name).isNone then
    some (fields ++ [(name, v)])
  else none

def assign (path : List String) (name : String) (v : Toml) : TableOrigin → Fields → Option Fields :=
  change true (define (!path.isEmpty) name v) path

def openTable (path : List String) (name : String) : Fields → Option Fields :=
  change false (fun _ fields =>
    match fields.lookup name with
    | none => some (fields ++ [(name, .table .header [])])
    | some (.table .passage sub) => some (setField name (.table .header sub) fields)
    | some _ => none) path .header

def openItem (path : List String) (name : String) : Fields → Option Fields :=
  change false (fun _ fields =>
    match fields.lookup name with
    | none => some (fields ++ [(name, .tables [[]])])
    | some (.tables items) => some (setField name (.tables (items ++ [[]])) fields)
    | some _ => none) path .header

end Toml

end CivicLedger
