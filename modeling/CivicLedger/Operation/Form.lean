import CivicLedger.Operation.Basic

/-!
# The form of an operation

Limits that an operation keeps by itself, whatever the ledger holds. The first one broken is
reported.
-/

namespace CivicLedger

inductive TextField where
  | title
  | detail
  | url
  | option
  | tokenName
  | comment
  deriving DecidableEq, Repr

def TextField.label : TextField → String
  | title => "title"
  | detail => "detail"
  | url => "url"
  | option => "option"
  | tokenName => "token name"
  | comment => "comment"

def TextField.limit : TextField → Nat
  | title => 128
  | detail => 256
  | url => 256
  | option => 256
  | tokenName => 64
  | comment => 256

inductive FormFault where
  | invalidName (name : String)
  | invalidSymbol (symbol : String)
  | tooLong (field : TextField) (length : Nat)
  | empty (field : TextField)
  | optionCount (count : Nat)
  | delegateCount (count : Nat)
  | billDuration (days : UInt16)
  | digits (places : UInt8)
  | zeroAmount
  deriving DecidableEq, Repr

namespace Form

def maxBillOptions : Nat := 16
def maxBillDays : UInt16 := 360
def maxDelegateVotes : Nat := 51

def isLetterOrDigit (c : Char) : Bool :=
  ('a' ≤ c && c ≤ 'z') || ('A' ≤ c && c ≤ 'Z') || Text.isDigit c

/-- Two to sixteen letters, digits, underscores and hyphens. -/
def isName (s : String) : Bool :=
  decide (2 ≤ s.utf8ByteSize ∧ s.utf8ByteSize ≤ 16) &&
    s.toList.all fun c => isLetterOrDigit c || c = '_' || c = '-'

/-- One to sixteen letters and digits. -/
def isSymbol (s : String) : Bool :=
  decide (1 ≤ s.utf8ByteSize ∧ s.utf8ByteSize ≤ 16) && s.toList.all isLetterOrDigit

def checkName (s : String) : Except FormFault Unit :=
  if isName s then .ok () else .error (.invalidName s)

def checkSymbol (s : String) : Except FormFault Unit :=
  if isSymbol s then .ok () else .error (.invalidSymbol s)

def checkLength (field : TextField) (s : String) : Except FormFault Unit :=
  if s.utf8ByteSize ≤ field.limit then .ok () else .error (.tooLong field s.utf8ByteSize)

def checkText (field : TextField) (s : String) : Except FormFault Unit :=
  if s.isEmpty then .error (.empty field) else checkLength field s

def checkDelegates (s : SortedSet KeyId) : Except FormFault Unit :=
  if 1 ≤ s.size ∧ s.size ≤ maxDelegateVotes then .ok () else .error (.delegateCount s.size)

def checkBill (d : BillDraft) : Except FormFault Unit := do
  checkText .title d.title
  checkLength .detail d.detail
  checkLength .url d.url
  if d.days = 0 ∨ maxBillDays < d.days then throw (.billDuration d.days)
  if d.options = [] ∨ maxBillOptions < d.options.length then throw (.optionCount d.options.length)
  d.options.forM (checkText .option)

def checkToken (d : TokenDraft) : Except FormFault Unit := do
  checkSymbol d.symbol
  checkText .tokenName d.name
  if Amount.maxDigits < d.digits then throw (.digits d.digits)
  if d.total = 0 then throw .zeroAmount

def checkPayment (amount : UInt64) (comment : String) : Except FormFault Unit := do
  if amount = 0 then throw .zeroAmount
  checkLength .comment comment

end Form

open Form in
def Operation.checkForm : Operation → Except FormFault Unit
  | registerDelegate name => checkName name
  | voteDelegates delegates => checkDelegates delegates
  | revokeDelegates delegates => checkDelegates delegates
  | registerCommittee name url => do
    checkName name
    checkLength .url url
  | voteCommittee _ => .ok ()
  | revokeCommittee _ => .ok ()
  | submitBill draft => checkBill draft
  | voteBill _ _ => .ok ()
  | registerName name => checkName name
  | createToken draft => checkToken draft
  | transferToken _ _ amount comment => checkPayment amount comment
  | lockToken _ _ amount _ comment => checkPayment amount comment
  | unrecognized _ _ => .ok ()

def FormFault.message : FormFault → String
  | invalidName name => "invalid name '" ++ name ++ "': expected 2-16 characters of [A-Za-z0-9_-]"
  | invalidSymbol symbol =>
    "invalid token symbol '" ++ symbol ++ "': expected 1-16 ASCII letters or digits"
  | tooLong field length =>
    field.label ++ " is " ++ toString length ++ " bytes, limit is " ++ toString field.limit
  | empty field => field.label ++ " must not be empty"
  | optionCount count =>
    "bill must offer between 1 and " ++ toString Form.maxBillOptions ++ " options, got " ++
      toString count
  | delegateCount count =>
    "delegate set must name between 1 and " ++ toString Form.maxDelegateVotes ++
      " delegates, got " ++ toString count
  | billDuration days =>
    "bill duration must be between 1 and " ++ toString Form.maxBillDays.toNat ++ " days, got " ++
      toString days.toNat
  | digits places =>
    "token digits must be at most " ++ toString Amount.maxDigits.toNat ++ ", got " ++
      toString places.toNat
  | zeroAmount => "amount must be positive"

end CivicLedger
