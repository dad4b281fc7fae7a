import CivicLedger.Json.Value

/-!
# Records in JSON texts

A record is read from an object, in which unknown fields are passed over and a known field may stand
only once, or from an array that lists the known fields in their order. Fields at the end of such
an array may be missing where they have a default; more members than fields are refused.
-/

namespace CivicLedger.Json

/-- The trees of a record's fields; a field that is not there has none. -/
structure FieldTrees where
  found : List (String × Tree)

namespace FieldTrees

def get? (f : FieldTrees) (name : String) : Option Tree := f.found.lookup name

end FieldTrees

def fieldsOfObject? (known : List String) :
    List (List Glyph × Tree) → List (String × Tree) → Option FieldTrees
  | [], done => some ⟨done⟩
  | (name, t) :: rest, done => do
    let name ← textOf? name
    if name ∈ known then
      if (done.lookup name).isSome then none else fieldsOfObject? known rest ((name, t) :: done)
    else fieldsOfObject? known rest done

def fieldsOf? (known : List String) : Tree → Option FieldTrees
  | .object fields => fieldsOfObject? known fields []
  | .array items => if items.length ≤ known.length then some ⟨known.zip items⟩ else none
  | _ => none

def asText? : Tree → Option String
  | .text t => textOf? t
  | _ => none

def asWord? : Tree → Option UInt64
  | .number n =>
    match ofNumeral? n with
    | some (nat w) => some w
    | _ => none
  | _ => none

def asList? {α : Type} (f : Tree → Option α) : Tree → Option (List α)
  | .array items => items.mapM f
  | _ => none

/-- Names with their values; of two of one name the later one stays. -/
def asEntries? {α : Type} (f : Tree → Option α) : Tree → Option (List (String × α))
  | .object fields => fields.mapM fun (name, t) => do return (← textOf? name, ← f t)
  | _ => none

def fieldOr {α : Type} (fields : FieldTrees) (name : String) (default : α)
    (f : Tree → Option α) : Option α :=
  match fields.get? name with
  | some t => f t
  | none => some default

def field? {α : Type} (fields : FieldTrees) (name : String) (f : Tree → Option α) : Option α := do
  f (← fields.get? name)

end CivicLedger.Json
