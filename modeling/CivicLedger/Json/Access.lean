import CivicLedger.Json.Value

/-!
# Parts of JSON values

A field that an object does not have counts as null.
-/

namespace CivicLedger.Json

def get (name : String) : Json → Json
  | .object fields => (fields.lookup name).getD .null
  | _ => .null

def text? : Json → Option String
  | .text s => some s
  | _ => none

def word? : Json → Option UInt64
  | .nat n => some n
  | _ => none

def flag? : Json → Option Bool
  | .flag b => some b
  | _ => none

def items? : Json → Option (List Json)
  | .array items => some items
  | _ => none

def listOf? {α : Type} (f : Json → Option α) (v : Json) : Option (List α) := do
  (← v.items?).mapM f

def pairOf? {α β : Type} (f : Json → Option α) (g : Json → Option β) : Json → Option (α × β)
  | .array [a, b] => do return (← f a, ← g b)
  | _ => none

/-- A value, or the default in place of null. -/
def orDefault? {α : Type} (default : α) (f : Json → Option α) : Json → Option α
  | .null => some default
  | v => f v

def optionOf? {α : Type} (f : Json → Option α) : Json → Option (Option α)
  | .null => some none
  | v => (f v).map some

def withFields (v : Json) (more : List (String × Json)) : Json :=
  match v with
  | .object fields => .object (fields ++ more)
  | v => v

end CivicLedger.Json
