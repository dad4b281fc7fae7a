import CivicLedger.Host.Machine

/-!
# A machine in memory

Files and ledgers by their paths, taken from a root that nothing leads out of. Directories are there
where something is in them; a ledger is a directory of its own. The clock stands still.
-/

namespace CivicLedger

/-- The steps of a path from the root, or from the working directory. -/
abbrev Steps := List String

namespace Steps

def take (taken : Steps) (step : String) : Steps :=
  if step = "" ∨ step = "." then taken
  else if step = ".." then taken.drop 1
  else step :: taken

def ofPath (path : String) : Steps :=
  let steps := ((path.splitOn "/").foldl take []).reverse
  if path.toList.head? = some '/' then "/" :: steps else steps

/-- Whether `inner` lies somewhere below `outer`. -/
def isBelow (outer inner : Steps) : Bool := outer.isPrefixOf inner && outer ≠ inner

def parent (steps : Steps) : Steps := steps.dropLast

end Steps

structure Scratch where
  files : List (Steps × String)
  ledgers : List (Steps × Database)
  input : String
  /-- The lines printed, the last one first. -/
  printed : List String
  complaints : List String

namespace Scratch

def empty : Scratch := ⟨[], [], "", [], []⟩

def assign {α : Type} (path : Steps) (a : α) (l : List (Steps × α)) : List (Steps × α) :=
  (path, a) :: l.filter (·.1 ≠ path)

def withFile (s : Scratch) (path : String) (text : String) : Scratch :=
  { s with files := assign (Steps.ofPath path) text s.files }

def paths (s : Scratch) : List Steps := s.files.map Prod.fst ++ s.ledgers.map Prod.fst

def isFile (s : Scratch) (path : Steps) : Bool := (s.files.lookup path).isSome

def isDirectory (s : Scratch) (path : Steps) : Bool :=
  path.isEmpty || (s.ledgers.lookup path).isSome || s.paths.any path.isBelow

/-- Whether a file is at the path or on the way to it. -/
def isBlocked (s : Scratch) (path : Steps) : Bool :=
  s.files.any fun e => e.1.isPrefixOf path

def content (s : Scratch) (path : String) : FileContent :=
  if path = "" then .absent
  else
    let steps := Steps.ofPath path
    match s.files.lookup steps with
    | some text => .text text
    | none => if s.isDirectory steps then .unreadable else .absent

def place (s : Scratch) (path : String) : LedgerPlace :=
  let steps := Steps.ofPath path
  if path = "" ∨ s.isBlocked steps then .unusable
  else
    match s.ledgers.lookup steps with
    | some db => .ledger db
    | none => if s.paths.any steps.isBelow then .occupied else .vacant

def touched (s : Scratch) (path : String) : Option Scratch :=
  let steps := Steps.ofPath path
  if s.isFile steps then some s
  else if s.isDirectory steps ∨ !s.isDirectory steps.parent then none
  else some (s.withFile path "")

instance : Machine (StateM Scratch) where
  file path := do return (← get).content path
  input := do return (← get).input
  printLine line := modify fun s => { s with printed := line :: s.printed }
  complain line := modify fun s => { s with complaints := line :: s.complaints }
  ledgerAt path := do return (← get).place path
  saveLedger path db :=
    modify fun s => { s with ledgers := assign (Steps.ofPath path) db s.ledgers }
  touch path := do
    match (← get).touched path with
    | some s =>
      set s
      return true
    | none => return false
  seconds := return 0

end Scratch

end CivicLedger
