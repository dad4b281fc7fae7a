import CivicLedger.Gateway.Arguments
import CivicLedger.Gateway.Body
import CivicLedger.Node.Submission

/-!
# Commands

The calls that submit an operation. Arguments are looked at in a fixed order, so that of several
wrong ones the same is always reported.
-/

namespace CivicLedger.Gateway

inductive Command where
  | register
  | vote
  | cancelVote
  | registerCommittee
  | voteCommittee
  | cancelVoteCommittee
  | submitBill
  | voteBill
  | registerName
  | createToken
  | sendToken
  | lockToken
  deriving DecidableEq, Repr

namespace Command

def all : List Command :=
  [register, vote, cancelVote, registerCommittee, voteCommittee, cancelVoteCommittee, submitBill,
   voteBill, registerName, createToken, sendToken, lockToken]

def name : Command → String
  | register => "register"
  | vote => "vote"
  | cancelVote => "cancelvote"
  | registerCommittee => "registercommittee"
  | voteCommittee => "votecommittee"
  | cancelVoteCommittee => "cancelvotecommittee"
  | submitBill => "submitbill"
  | voteBill => "votebill"
  | registerName => "registername"
  | createToken => "createtoken"
  | sendToken => "sendtoken"
  | lockToken => "locktoken"

def ofName? (s : String) : Option Command := all.find? (·.name = s)

/-- A call that may have sent something. -/
abbrev Call (α : Type) := EStateM Fault Outbound α

def argument {α : Type} : Answer α → Call α
  | .ok a => pure a
  | .error fault => throw fault

def send {α : Type} (s : Submission α) : Call α := fun o =>
  match s o with
  | .ok a o => .ok a o
  | .error fault o => .error (Fault.ofNode fault) o

def txText (t : TxId) : Json := .text t.text

variable {σ : Type} [LedgerReads σ]

open Arguments

/-- The sender and the names of delegates, of which there is at least one. -/
def voteArguments (p : Arguments) : Answer (KeyId × List String) := do
  let sender ← key p 0 "address"
  let names ← restTexts p 1 "delegate names"
  if names.isEmpty then invalid "at least one delegate name is required"
  return (sender, names)

def billArguments (p : Arguments) : Answer (KeyId × BillDraft) := do
  let days ← word p 4 "duration days"
  if UInt16.size ≤ days.toNat then
    invalid ("duration of " ++ toString days.toNat ++ " days is too long")
  let sender ← key p 0 "address"
  let title ← text p 1 "title"
  let detail ← text p 2 "detail"
  let url ← text p 3 "url"
  return (sender, ⟨title, detail, url, days.toUInt16, ← restTexts p 5 "options"⟩)

def ballotArguments (p : Arguments) : Answer (KeyId × BillId × UInt8) := do
  let choice ← word p 2 "option index"
  if UInt8.size ≤ choice.toNat then
    invalid ("option index " ++ toString choice.toNat ++ " out of range")
  let sender ← key p 0 "address"
  return (sender, ← bill p 1, choice.toUInt8)

structure TokenArguments where
  owner : KeyId
  symbol : String
  name : String
  address : KeyId
  supply : String
  digits : UInt8

def tokenArguments (p : Arguments) : Answer TokenArguments := do
  let digits ← word p 5 "decimal"
  if UInt8.size ≤ digits.toNat then invalid (toString digits.toNat ++ " decimals is too many")
  let owner ← key p 2 "owner address"
  let symbol ← text p 0 "symbol"
  let name ← text p 1 "name"
  let address ← key p 3 "token address"
  return ⟨owner, symbol, name, address, ← amount p 4 "total supply", digits.toUInt8⟩

structure PaymentArguments where
  address : KeyId
  sender : KeyId
  target : KeyId
  amount : String

def paymentArguments (p : Arguments) : Answer PaymentArguments := do
  let address ← key p 0 "token address"
  let sender ← key p 1 "from address"
  let target ← key p 2 "to address"
  return ⟨address, sender, target, ← amount p 3 "amount"⟩

def commentAt (p : Arguments) (i : Nat) : Answer String := do
  return (← text? p i "comment").getD ""

def run (d : Desk σ) (p : Arguments) : Command → Call Json
  | register => do
    let sender ← argument (key p 0 "address")
    let name ← argument (text p 1 "name")
    return txText (← send (d.submit sender (.registerDelegate name)))
  | vote => do
    let (sender, names) ← argument (voteArguments p)
    return txText (← send (d.voteDelegates sender names))
  | cancelVote => do
    let (sender, names) ← argument (voteArguments p)
    return txText (← send (d.revokeDelegates sender names))
  | registerCommittee => do
    let sender ← argument (key p 0 "address")
    let name ← argument (text p 1 "name")
    let url ← argument (text p 2 "url")
    return txText (← send (d.submit sender (.registerCommittee name url)))
  | voteCommittee => do
    let sender ← argument (key p 0 "address")
    let committee ← argument (text p 1 "committee")
    return txText (← send (d.voteCommittee sender committee))
  | cancelVoteCommittee => do
    let sender ← argument (key p 0 "address")
    let committee ← argument (text p 1 "committee")
    return txText (← send (d.revokeCommittee sender committee))
  | submitBill => do
    let (sender, draft) ← argument (billArguments p)
    let tx ← send (d.submit sender (.submitBill draft))
    let bill := BillId.ofTitle draft.title
    return .object [("txid", txText tx), ("billid", Interchange.ofBill bill)]
  | voteBill => do
    let (sender, bill, choice) ← argument (ballotArguments p)
    return txText (← send (d.submit sender (.voteBill bill choice)))
  | registerName => do
    let sender ← argument (key p 0 "address")
    let name ← argument (text p 1 "name")
    return txText (← send (d.submit sender (.registerName name)))
  | createToken => do
    let a ← argument (tokenArguments p)
    return txText (← send (d.createToken a.owner a.symbol a.name a.address a.supply a.digits))
  | sendToken => do
    let a ← argument (paymentArguments p)
    let comment ← argument (commentAt p 4)
    return txText (← send (d.sendToken a.address a.sender a.target a.amount comment))
  | lockToken => do
    let a ← argument (paymentArguments p)
    let blocks ← argument (word p 4 "lock blocks")
    let comment ← argument (commentAt p 5)
    return txText (← send (d.lockToken a.address a.sender a.target a.amount blocks comment))

end Command

def call {σ : Type} [LedgerReads σ] (ask : String → Arguments → Answer Json) (d : Desk σ)
    (name : String) (p : Arguments) : Command.Call Json :=
  match Command.ofName? name with
  | some c => c.run d p
  | none => Command.argument (ask name p)

end CivicLedger.Gateway
