import CivicLedger.Gateway.Fault
import CivicLedger.Json.Value
import CivicLedger.Text.Blank

/-!
# Arguments of calls

Arguments are given by place; null counts as not given. Whole numbers may be given as texts, and
amounts as numbers, which are read as they would be printed.
-/

namespace CivicLedger.Gateway

abbrev Arguments := List Json

abbrev Answer (α : Type) := Except Fault α

namespace Arguments

def invalid {α : Type} (detail : String) : Answer α := .error ⟨.invalidParams, detail⟩

def missing {α : Type} (name : String) : Answer α := invalid ("missing " ++ name)

/-- The argument at a place, unless it is null. -/
def at? (p : Arguments) (i : Nat) : Option Json := p[i]?.filter fun v => !v.isNull

def text? (p : Arguments) (i : Nat) (name : String) : Answer (Option String) :=
  match at? p i with
  | none => .ok none
  | some (.text s) => .ok (some s)
  | some _ => invalid (name ++ " must be a string")

def text (p : Arguments) (i : Nat) (name : String) : Answer String := do
  match ← text? p i name with
  | some s => return s
  | none => missing name

def keyOf (s : String) : Answer KeyId :=
  match KeyId.ofText s with
  | .ok k => .ok k
  | .error fault => .error ⟨.invalidAddress, KeyId.faultMessage fault⟩

def key (p : Arguments) (i : Nat) (name : String) : Answer KeyId := do keyOf (← text p i name)

def key? (p : Arguments) (i : Nat) (name : String) : Answer (Option KeyId) := do
  match ← text? p i name with
  | some s => return some (← keyOf s)
  | none => return none

def bill (p : Arguments) (i : Nat) : Answer BillId := do
  match BillId.ofText (← text p i "bill id") with
  | .ok b => return b
  | .error fault => throw ⟨.invalidAddress, BillId.faultMessage fault⟩

def word? (p : Arguments) (i : Nat) (name : String) : Answer (Option UInt64) :=
  let refuse := invalid (name ++ " must be a non-negative integer")
  match at? p i with
  | none => .ok none
  | some (.nat n) => .ok (some n)
  | some (.text s) =>
    match Text.word? (Text.trimChars s.toList) with
    | some n => .ok (some n)
    | none => refuse
  | some _ => refuse

def word (p : Arguments) (i : Nat) (name : String) : Answer UInt64 := do
  match ← word? p i name with
  | some n => return n
  | none => missing name

def amount (p : Arguments) (i : Nat) (name : String) : Answer String :=
  match at? p i with
  | none => missing name
  | some (.text s) => .ok s
  | some v =>
    match v.numberText? with
    | some s => .ok s
    | none => invalid (name ++ " must be a decimal amount")

/-- The arguments from a place on; a single list stands for its members. -/
def rest (p : Arguments) (i : Nat) : Arguments :=
  match p.drop i with
  | [.array items] => items
  | tail => tail

def textOf (name : String) : Json → Answer String
  | .text s => .ok s
  | _ => invalid (name ++ " must be strings")

def restTexts (p : Arguments) (i : Nat) (name : String) : Answer (List String) :=
  (rest p i).mapM (textOf name)

def restWords (p : Arguments) (i : Nat) (name : String) : Answer (List UInt64) :=
  (rest p i).mapM fun v => word [v] 0 name

end Arguments

end CivicLedger.Gateway
