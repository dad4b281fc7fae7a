import CivicLedger.Operation.Form
import CivicLedger.Operation.Payload
import CivicLedger.State.Fault

/-!
# Refusals

Why an operation has no effect. The fee of a refused operation is spent all the same.
-/

namespace CivicLedger

inductive Refusal where
  | form (fault : FormFault)
  | unrecognized (opcode : UInt8)
  | feeTooLow (paid required : UInt64)
  | delegateRegistered (address : KeyId)
  | delegateNameTaken (name : String)
  | unknownDelegate (address : KeyId)
  | delegateAlreadyVoted (address : KeyId)
  | tooManyDelegateVotes (count : Nat)
  | delegateNotVoted (address : KeyId)
  | committeeRegistered (address : KeyId)
  | committeeNameTaken (name : String)
  | unknownCommittee (address : KeyId)
  | committeeAlreadyVoted (address : KeyId)
  | committeeNotVoted (address : KeyId)
  | notCommittee (address : KeyId)
  | billExists (bill : BillId)
  | unknownBill (bill : BillId)
  | billFinished (bill : BillId)
  | optionOutOfRange (choice : UInt8) (count : Nat)
  | billAlreadyVoted (bill : BillId)
  | addressNamed (address : KeyId)
  | nameTaken (name : String)
  | ownerUnnamed (address : KeyId)
  | tokenAddressBound (address : KeyId)
  | tokenSymbolTaken (symbol : String)
  | fractionalSupply (total : UInt64) (digits : UInt8)
  | supplyTooLarge (supply : UInt64)
  | unknownToken (token : TokenId)
  | amountExceedsSupply (amount total : UInt64)
  | insufficientTokenBalance (spendable required : UInt64)
  | lockExpiryPassed (expiry height : Height)
  deriving DecidableEq

/-- The most whole units of a token. -/
def maxTokenSupply : UInt64 := 100000000000

def Refusal.message : Refusal → String
  | form fault => fault.message
  | unrecognized opcode => "unrecognized operation " ++ Payload.opcodeText opcode
  | feeTooLow paid required =>
    "fee " ++ toString paid.toNat ++ " is below the minimum " ++ toString required.toNat
  | delegateRegistered address => "address " ++ address.text ++ " is already a delegate"
  | delegateNameTaken name => "delegate name '" ++ name ++ "' is already registered"
  | unknownDelegate address => "delegate " ++ address.text ++ " is not registered"
  | delegateAlreadyVoted address => "already voted for delegate " ++ address.text
  | tooManyDelegateVotes count =>
    "an address can vote for at most " ++ toString Form.maxDelegateVotes ++
      " delegates, this would make " ++ toString count
  | delegateNotVoted address => "no vote for delegate " ++ address.text ++ " to revoke"
  | committeeRegistered address => "address " ++ address.text ++ " is already a committee"
  | committeeNameTaken name => "committee name '" ++ name ++ "' is already registered"
  | unknownCommittee address => "committee " ++ address.text ++ " is not registered"
  | committeeAlreadyVoted address => "already voted for committee " ++ address.text
  | committeeNotVoted address => "no vote for committee " ++ address.text ++ " to revoke"
  | notCommittee address =>
    "bill submitter " ++ address.text ++ " is not a registered committee"
  | billExists bill => "a bill titled like " ++ bill.text ++ " already exists"
  | unknownBill bill => "bill " ++ bill.text ++ " does not exist"
  | billFinished bill => "voting on bill " ++ bill.text ++ " has finished"
  | optionOutOfRange choice count =>
    "option " ++ toString choice.toNat ++ " is out of range, bill has " ++ toString count ++
      " options"
  | billAlreadyVoted bill => "already voted on bill " ++ bill.text
  | addressNamed address => "address " ++ address.text ++ " already has a name"
  | nameTaken name => "name '" ++ name ++ "' is already registered"
  | ownerUnnamed address => "token owner " ++ address.text ++ " has not registered a name"
  | tokenAddressBound address =>
    "token address " ++ address.text ++ " is already bound to a token"
  | tokenSymbolTaken symbol =>
    "token symbol '" ++ symbol ++ "' is already registered by this owner"
  | fractionalSupply total digits =>
    "total amount " ++ toString total.toNat ++ " is not a whole number of units with " ++
      toString digits.toNat ++ " digits"
  | supplyTooLarge supply =>
    "token supply " ++ toString supply.toNat ++ " exceeds the maximum " ++
      toString maxTokenSupply.toNat
  | unknownToken token => "token " ++ token.text ++ " does not exist"
  | amountExceedsSupply amount total =>
    "amount " ++ toString amount.toNat ++ " exceeds the token's total supply " ++
      toString total.toNat
  | insufficientTokenBalance spendable required =>
    "token balance insufficient: spendable " ++ toString spendable.toNat ++ ", required " ++
      toString required.toNat
  | lockExpiryPassed expiry height =>
    "lock expiry height " ++ toString expiry.toNat ++ " is not above the current height " ++
      toString height.toNat

/-- A refusal, or a fault of the store that left the question open. -/
inductive AdmissionFault where
  | refused (refusal : Refusal)
  | store (fault : StoreFault)
  deriving DecidableEq

abbrev Admission (α : Type) := Except AdmissionFault α

namespace Admission

variable {α : Type}

def refuse (r : Refusal) : Admission α := .error (.refused r)

def read : Except StoreFault α → Admission α
  | .ok a => .ok a
  | .error fault => .error (.store fault)

end Admission

end CivicLedger
