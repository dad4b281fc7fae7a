import CivicLedger.Interchange.Basic
import CivicLedger.Rules.Effect

/-!
# Records and effects as JSON

A record is an object of its fields; votes and locks are arrays.
-/

namespace CivicLedger.Interchange

def ofDelegate (d : Delegate) : Json :=
  .object [("address", ofKey d.address), ("name", .text d.name), ("height", .nat d.height)]

def ofCommittee (c : Committee) : Json :=
  .object
    [("address", ofKey c.address), ("name", .text c.name), ("url", .text c.url),
     ("height", .nat c.height)]

def ofBillRecord (b : Bill) : Json :=
  .object
    [("id", ofBill b.id), ("title", .text b.title), ("detail", .text b.detail),
     ("url", .text b.url), ("committee", ofKey b.committee), ("start", .nat b.opened),
     ("end", .nat b.closes), ("options", ofList .text b.options), ("height", .nat b.height)]

def billRecord? (v : Json) : Option Bill := do
  return ⟨← bill? (v.get "id"), ← (v.get "title").text?, ← (v.get "detail").text?,
    ← (v.get "url").text?, ← key? (v.get "committee"), ← (v.get "start").word?,
    ← (v.get "end").word?, ← (v.get "options").listOf? Json.text?, ← (v.get "height").word?⟩

def ofBallot (b : Ballot) : Json := .array [ofByte b.choice, ofOption .nat b.weight]

def ofVote (e : KeyId × Ballot) : Json :=
  .array [ofKey e.1, ofByte e.2.choice, ofOption .nat e.2.weight]

def ofSettlement (s : Settlement) : Json :=
  .object
    [("passed", .flag s.passed), ("winning_option", ofOption ofByte s.winner),
     ("total_vote", .nat s.total), ("option_totals", ofList .nat s.totals),
     ("finalized_height", .nat s.height), ("finalized_time", .nat s.time)]

def settlement? (v : Json) : Option Settlement := do
  return ⟨← (v.get "passed").flag?, ← (v.get "winning_option").optionOf? byte?,
    ← (v.get "total_vote").word?, ← (v.get "option_totals").listOf? Json.word?,
    ← (v.get "finalized_height").word?, ← (v.get "finalized_time").word?⟩

def ofToken (t : Token) : Json :=
  .object
    [("id", ofTokenId t.id), ("symbol", .text t.symbol), ("name", .text t.name),
     ("owner", ofKey t.owner), ("token_address", ofKey t.address), ("total_amount", .nat t.total),
     ("digits", ofByte t.digits), ("height", .nat t.height)]

def tokenRecord? (v : Json) : Option Token := do
  return ⟨← token? (v.get "id"), ← (v.get "symbol").text?, ← (v.get "name").text?,
    ← key? (v.get "owner"), ← key? (v.get "token_address"), ← (v.get "total_amount").word?,
    ← byte? (v.get "digits"), ← (v.get "height").word?⟩

def ofLock (l : TokenLock) : Json :=
  .array [ofTokenId l.token, ofKey l.holder, .nat l.expiry, .nat l.amount]

def ofDebit (d : TokenDebit) : Json :=
  .object
    [("token", ofTokenId d.token), ("from", ofKey d.source), ("to", ofKey d.target),
     ("amount", .nat d.amount), ("matured", ofList ofLock d.matured)]

def ofDelegateVotes (voter : KeyId) (delegates : List KeyId) : Json :=
  .object [("voter", ofKey voter), ("delegates", ofList ofKey delegates)]

def ofCommitteeVote (voter committee : KeyId) : Json :=
  .object [("voter", ofKey voter), ("committee", ofKey committee)]

def ofEffect : Effect → Json
  | .registerDelegate delegate => ofDelegate delegate
  | .voteDelegates voter delegates => ofDelegateVotes voter delegates
  | .revokeDelegates voter delegates => ofDelegateVotes voter delegates
  | .registerCommittee committee => ofCommittee committee
  | .voteCommittee voter committee => ofCommitteeVote voter committee
  | .revokeCommittee voter committee => ofCommitteeVote voter committee
  | .submitBill bill => ofBillRecord bill
  | .voteBill bill voter choice =>
    .object [("bill", ofBill bill), ("voter", ofKey voter), ("option", ofByte choice)]
  | .registerName address name => .object [("address", ofKey address), ("name", .text name)]
  | .createToken token => ofToken token
  | .transferToken debit => ofDebit debit
  | .lockToken debit expiry => .object [("debit", ofDebit debit), ("expiry_height", .nat expiry)]

end CivicLedger.Interchange
