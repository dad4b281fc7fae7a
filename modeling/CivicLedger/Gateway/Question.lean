import CivicLedger.Gateway.Arguments
import CivicLedger.Gateway.Body

/-!
# Questions

The calls that only read. They are answered at the block that the coin balances belong to.
-/

namespace CivicLedger.Gateway

open Interchange (ofKey ofOption ofList)

inductive Question where
  | listDelegates
  | getDelegateVotes
  | getDelegateFunds
  | listVotedDelegates
  | listReceivedVotes
  | getCommittee
  | listCommittees
  | listCommitteeVoters
  | listCommitteeBills
  | listVoterCommittees
  | getBill
  | listBills
  | listBillVoters
  | listVoterBills
  | getAddressBalance
  | getCoinRank
  | getCoinDistribution
  | getAddressName
  | getNameAddress
  | getTokenInfo
  | getTokenBalance
  deriving DecidableEq, Repr

namespace Question

def all : List Question :=
  [listDelegates, getDelegateVotes, getDelegateFunds, listVotedDelegates, listReceivedVotes,
   getCommittee, listCommittees, listCommitteeVoters, listCommitteeBills, listVoterCommittees,
   getBill, listBills, listBillVoters, listVoterBills, getAddressBalance, getCoinRank,
   getCoinDistribution, getAddressName, getNameAddress, getTokenInfo, getTokenBalance]

def name : Question → String
  | listDelegates => "listdelegates"
  | getDelegateVotes => "getdelegatevotes"
  | getDelegateFunds => "getdelegatefunds"
  | listVotedDelegates => "listvoteddelegates"
  | listReceivedVotes => "listreceivedvotes"
  | getCommittee => "getcommittee"
  | listCommittees => "listcommittees"
  | listCommitteeVoters => "listcommitteevoters"
  | listCommitteeBills => "listcommitteebills"
  | listVoterCommittees => "listvotercommittees"
  | getBill => "getbill"
  | listBills => "listbills"
  | listBillVoters => "listbillvoters"
  | listVoterBills => "listvoterbills"
  | getAddressBalance => "getaddressbalance"
  | getCoinRank => "getcoinrank"
  | getCoinDistribution => "getcoindistribution"
  | getAddressName => "getaddressname"
  | getNameAddress => "getnameaddress"
  | getTokenInfo => "gettokeninfo"
  | getTokenBalance => "gettokenbalance"

def ofName? (s : String) : Option Question := all.find? (·.name = s)

def defaultRank : Nat := 100

variable {σ : Type} [LedgerReads σ]

def tell {α : Type} (f : α → Json) : Except SurveyFault α → Answer Json
  | .ok a => .ok (f a)
  | .error fault => .error (Fault.ofSurvey fault)

open Arguments in
/-- Answers a question for a pinned survey. -/
def ask (v : Survey σ) (p : Arguments) : Question → Answer Json
  | listDelegates => tell (ofList Body.delegate) v.listDelegates
  | getDelegateVotes => do tell .nat (v.delegateVotes (← text p 0 "delegate name"))
  | getDelegateFunds => do tell .nat (v.delegateFunds (← text p 0 "delegate name"))
  | listVotedDelegates => do
    tell (ofList Body.delegate) (v.votedDelegates (← key p 0 "address"))
  | listReceivedVotes => do
    tell (ofList Body.voter) (v.receivedVotes (← text p 0 "delegate name"))
  | getCommittee => do
    tell (ofOption Body.committee) (v.committee (← key p 0 "committee"))
  | listCommittees => tell (ofList Body.committee) v.listCommittees
  | listCommitteeVoters => do
    tell (ofList Body.voter) (v.committeeVoters (← key p 0 "committee"))
  | listCommitteeBills => do
    tell (ofList Body.billTitle) (v.committeeBills (← key p 0 "committee"))
  | listVoterCommittees => do
    tell (ofList Body.committee) (v.voterCommittees (← key p 0 "address"))
  | getBill => do tell (ofOption (Body.bill v.point.time)) (v.bill (← bill p 0))
  | listBills => tell (ofList (Body.bill v.point.time)) v.listBills
  | listBillVoters => do tell (ofList Body.optionVoters) (v.billVoters (← bill p 0))
  | listVoterBills => do
    tell (ofList Body.voterBill) (v.voterBills (← key p 0 "address"))
  | getAddressBalance => do return .nat (v.coinBalance (← key p 0 "address"))
  | getCoinRank => do
    let n := ((← word? p 0 "number").map UInt64.toNat).getD defaultRank
    return ofList Body.holding (v.coinRank n)
  | getCoinDistribution => do
    tell (ofList Body.bucket) (v.coinDistribution (← restWords p 0 "thresholds"))
  | getAddressName => do tell (ofOption .text) (v.nameOf (← key p 0 "address"))
  | getNameAddress => do tell (ofOption ofKey) (v.addressNamed (← text p 0 "name"))
  | getTokenInfo => do tell (ofList Body.token) (v.tokenInfo (← key? p 0 "token address"))
  | getTokenBalance => do
    let holder ← key p 0 "user address"
    let address? ← key? p 1 "token address"
    tell (ofList Body.tokenBalance) (v.tokenBalances holder address?)

/-- Answers the question of a name for the committed state of a store. -/
def answer (s : σ) (name : String) (p : Arguments) : Answer Json :=
  match Survey.pin s with
  | .error fault => .error (Fault.ofStore fault)
  | .ok v =>
    match ofName? name with
    | some q => q.ask v p
    | none => .error ⟨.methodNotFound, name⟩

end Question

end CivicLedger.Gateway
