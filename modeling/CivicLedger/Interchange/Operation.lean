import CivicLedger.Interchange.Basic
import CivicLedger.Operation.Basic

/-!
# Operations as JSON

An operation is an object that names its kind and lists its fields. The delegates of a vote are
written in their order and read in any.
-/

namespace CivicLedger.Interchange

def operationFields : Operation → List (String × Json)
  | .registerDelegate name => [("name", .text name)]
  | .voteDelegates delegates => [("delegates", ofList ofKey delegates.keys)]
  | .revokeDelegates delegates => [("delegates", ofList ofKey delegates.keys)]
  | .registerCommittee name url => [("name", .text name), ("url", .text url)]
  | .voteCommittee committee => [("committee", ofKey committee)]
  | .revokeCommittee committee => [("committee", ofKey committee)]
  | .submitBill d =>
    [("title", .text d.title), ("detail", .text d.detail), ("url", .text d.url),
     ("duration_days", .nat d.days.toUInt64), ("options", ofList .text d.options)]
  | .voteBill bill choice => [("bill", ofBill bill), ("option", ofByte choice)]
  | .registerName name => [("name", .text name)]
  | .createToken d =>
    [("symbol", .text d.symbol), ("name", .text d.name), ("token_address", ofKey d.address),
     ("total_amount", .nat d.total), ("digits", ofByte d.digits)]
  | .transferToken token recipient amount comment =>
    [("token", ofTokenId token), ("to", ofKey recipient), ("amount", .nat amount),
     ("comment", .text comment)]
  | .lockToken token recipient amount expiry comment =>
    [("token", ofTokenId token), ("to", ofKey recipient), ("amount", .nat amount),
     ("expiry_height", .nat expiry), ("comment", .text comment)]
  | .unrecognized opcode body => [("opcode", ofByte opcode), ("body", ofBytes body)]

def ofOperation (op : Operation) : Json :=
  .object (("type", .text op.kindName) :: operationFields op)

def keySet? (v : Json) : Option (SortedSet KeyId) := do
  return SortedSet.ofKeys (← v.listOf? key?)

def operationOf? (v : Json) : OpKind → Option Operation
  | .registerDelegate => do return .registerDelegate (← (v.get "name").text?)
  | .voteDelegates => do return .voteDelegates (← keySet? (v.get "delegates"))
  | .revokeDelegates => do return .revokeDelegates (← keySet? (v.get "delegates"))
  | .registerCommittee => do
    return .registerCommittee (← (v.get "name").text?) (← (v.get "url").text?)
  | .voteCommittee => do return .voteCommittee (← key? (v.get "committee"))
  | .revokeCommittee => do return .revokeCommittee (← key? (v.get "committee"))
  | .submitBill => do
    return .submitBill
      ⟨← (v.get "title").text?, ← (v.get "detail").text?, ← (v.get "url").text?,
       (← (v.get "duration_days").word?).toUInt16, ← (v.get "options").listOf? Json.text?⟩
  | .voteBill => do return .voteBill (← bill? (v.get "bill")) (← byte? (v.get "option"))
  | .registerName => do return .registerName (← (v.get "name").text?)
  | .createToken => do
    return .createToken
      ⟨← (v.get "symbol").text?, ← (v.get "name").text?, ← key? (v.get "token_address"),
       ← (v.get "total_amount").word?, ← byte? (v.get "digits")⟩
  | .transferToken => do
    return .transferToken (← token? (v.get "token")) (← key? (v.get "to"))
      (← (v.get "amount").word?) (← (v.get "comment").text?)
  | .lockToken => do
    return .lockToken (← token? (v.get "token")) (← key? (v.get "to"))
      (← (v.get "amount").word?) (← (v.get "expiry_height").word?) (← (v.get "comment").text?)

def operation? (v : Json) : Option Operation := do
  let name ← (v.get "type").text?
  match OpKind.all.find? (·.name = name) with
  | some kind => operationOf? v kind
  | none =>
    if name = "unrecognized" then
      return .unrecognized (← byte? (v.get "opcode")) (← bytes? (v.get "body"))
    else none

end CivicLedger.Interchange
