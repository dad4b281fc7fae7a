import CivicLedger.Gateway.Command
import CivicLedger.Gateway.Question
import CivicLedger.Json.Fields

/-!
# Messages

A request names a method, lists its arguments and has an identity that the response repeats. A text
that is no request is answered all the same.
-/

namespace CivicLedger.Gateway

structure Message where
  method : String
  params : Json
  id : Json

namespace Message

/-- Values inside a message are one container deep already. -/
def valueOf? (t : Json.Tree) : Option Json := Json.ofTree? (Json.maxDepth - 1) t

def ofText? (s : String) : Option Message := do
  let fields ← Json.fieldsOf? ["method", "params", "id"] (← Json.Tree.ofText? s)
  let method ← Json.field? fields "method" Json.asText?
  let params ← Json.fieldOr fields "params" Json.null valueOf?
  let id ← Json.fieldOr fields "id" Json.null valueOf?
  return ⟨method, params, id⟩

def arguments (m : Message) : Answer Arguments :=
  match m.params with
  | .array items => .ok items
  | .null => .ok []
  | _ => .error ⟨.invalidRequest, "params must be an array"⟩

end Message

def codeValue (f : Fault) : Json :=
  match f.kind.code with
  | .ofNat n => .nat (UInt64.ofNat n)
  | .negSucc n => .negative (n + 1)

def response (id : Json) (result : Answer Json) : Json :=
  .object
    ([("jsonrpc", .text "2.0"), ("id", id)] ++
     match result with
     | .ok v => [("result", v)]
     | .error f =>
       [("error", .object [("code", codeValue f), ("message", .text f.message)])])

/-- Answers the text of a request; what it sent is part of the result. -/
def respond {σ : Type} [LedgerReads σ] (d : Desk σ) (body : String) (o : Outbound) :
    Json × Outbound :=
  match Message.ofText? body with
  | none => (response .null (.error ⟨.parse, ""⟩), o)
  | some m =>
    match m.arguments with
    | .error fault => (response m.id (.error fault), o)
    | .ok p =>
      match call (Question.answer d.ledger) d m.method p o with
      | .ok v o => (response m.id (.ok v), o)
      | .error fault o => (response m.id (.error fault), o)

end CivicLedger.Gateway
