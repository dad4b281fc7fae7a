import CivicLedger.Amount
import CivicLedger.Interchange.Basic
import CivicLedger.Survey.Bills
import CivicLedger.Survey.CoinHoldings
import CivicLedger.Survey.Committees
import CivicLedger.Survey.Delegates
import CivicLedger.Survey.Tokens

/-!
# Answers as JSON

How the answers of the ledger are written. Token amounts are written as decimals of their token.
-/

namespace CivicLedger.Gateway.Body

open Interchange (ofKey ofBill ofByte ofCount ofOption ofList)

def delegate (d : Delegate) : Json := .object [("address", ofKey d.address), ("name", .text d.name)]

def voter (v : VoterWeight) : Json :=
  .object [("address", ofKey v.address), ("votes", .nat v.votes)]

def committee (c : CommitteeStanding) : Json :=
  .object
    [("address", ofKey c.address), ("name", .text c.name), ("url", .text c.url),
     ("votes", .nat c.votes)]

def billTitle (e : BillId × String) : Json :=
  .object [("id", ofBill e.1), ("title", .text e.2)]

/-- The height of the settlement stands only with settled bills. -/
def billStanding (s : BillStanding) : Json :=
  .object
    ([("finished", .flag s.finished), ("passed", .flag s.passed),
      ("option_index", ofOption ofByte s.winner), ("total_vote", .nat s.total),
      ("option_totals", ofList .nat s.totals)] ++
     match s.settledAt with
     | some height => [("finalized_height", .nat height)]
     | none => [])

def bill (now : Timestamp) (e : Bill × BillStanding) : Json :=
  let b := e.1
  .object
    [("id", ofBill b.id), ("title", .text b.title), ("detail", .text b.detail),
     ("url", .text b.url), ("committee", ofKey b.committee), ("start_time", .nat b.opened),
     ("end_time", .nat b.closes), ("window", .text (describeWindow b.closes now)),
     ("options", ofList .text b.options), ("state", billStanding e.2)]

def optionVoters (e : UInt8 × List VoterWeight) : Json :=
  .object [("option", ofByte e.1), ("voters", ofList voter e.2)]

def voterBill (e : BillId × UInt8) : Json :=
  .object [("bill", ofBill e.1), ("option", ofByte e.2)]

def holding (e : KeyId × UInt64) : Json :=
  .object [("address", ofKey e.1), ("balance", .nat e.2)]

def bucket (b : Bucket) : Json :=
  .object
    [("threshold", .nat b.threshold), ("addresses", ofCount b.addresses), ("coins", .nat b.coins)]

def token (t : Token) : Json :=
  .object
    [("id", .nat t.id.number), ("symbol", .text t.symbol), ("name", .text t.name),
     ("owner", ofKey t.owner), ("token_address", ofKey t.address),
     ("total_supply", .text (Amount.format t.total t.digits)), ("digits", ofByte t.digits),
     ("created_height", .nat t.height)]

def lock (digits : UInt8) (l : LockStanding) : Json :=
  .object
    [("expiry_height", .nat l.expiry), ("amount", .text (Amount.format l.amount digits)),
     ("matured", .flag l.matured)]

def tokenBalance (t : TokenStanding) : Json :=
  .object
    [("symbol", .text t.symbol), ("token_address", ofKey t.address),
     ("balance", .text (Amount.format t.available t.digits)),
     ("spendable", .text (Amount.format t.spendable t.digits)),
     ("locks", ofList (lock t.digits) t.locks)]

end CivicLedger.Gateway.Body
