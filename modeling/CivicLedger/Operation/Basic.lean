import CivicLedger.Identity
import CivicLedger.Network
import CivicLedger.Ordered.Map
import CivicLedger.Time

/-!
# Operations

What a transaction may ask of the ledger. Twelve kinds are known, each by its opcode and with a
least fee; a payload of any other opcode is kept as it is and has no effect.
-/

namespace CivicLedger

structure BillDraft where
  title : String
  detail : String
  url : String
  days : UInt16
  options : List String
  deriving DecidableEq, Repr

structure TokenDraft where
  symbol : String
  name : String
  address : KeyId
  /-- The whole supply in raw units. -/
  total : UInt64
  digits : UInt8
  deriving DecidableEq

inductive OpKind where
  | registerDelegate
  | voteDelegates
  | revokeDelegates
  | registerCommittee
  | voteCommittee
  | revokeCommittee
  | submitBill
  | voteBill
  | registerName
  | createToken
  | transferToken
  | lockToken
  deriving DecidableEq, Repr

inductive Operation where
  | registerDelegate (name : String)
  | voteDelegates (delegates : SortedSet KeyId)
  | revokeDelegates (delegates : SortedSet KeyId)
  | registerCommittee (name url : String)
  | voteCommittee (committee : KeyId)
  | revokeCommittee (committee : KeyId)
  | submitBill (draft : BillDraft)
  | voteBill (bill : BillId) (choice : UInt8)
  | registerName (name : String)
  | createToken (draft : TokenDraft)
  | transferToken (token : TokenId) (recipient : KeyId) (amount : UInt64) (comment : String)
  | lockToken (token : TokenId) (recipient : KeyId) (amount : UInt64) (expiry : Height)
      (comment : String)
  | unrecognized (opcode : UInt8) (body : Bytes)
  deriving DecidableEq

namespace OpKind

def all : List OpKind :=
  [registerDelegate, voteDelegates, revokeDelegates, registerCommittee, voteCommittee,
   revokeCommittee, submitBill, voteBill, registerName, createToken, transferToken, lockToken]

def opcode : OpKind → UInt8
  | registerDelegate => 0xc0
  | voteDelegates => 0xc1
  | revokeDelegates => 0xc2
  | registerCommittee => 0xc3
  | voteCommittee => 0xc4
  | revokeCommittee => 0xc5
  | submitBill => 0xc6
  | voteBill => 0xc7
  | registerName => 0xc8
  | createToken => 0xd0
  | transferToken => 0xd1
  | lockToken => 0xd2

def ofOpcode? (b : UInt8) : Option OpKind := all.find? (·.opcode = b)

theorem ofOpcode?_opcode (k : OpKind) : ofOpcode? k.opcode = some k := by cases k <;> decide

def name : OpKind → String
  | registerDelegate => "register_delegate"
  | voteDelegates => "vote_delegates"
  | revokeDelegates => "revoke_delegates"
  | registerCommittee => "register_committee"
  | voteCommittee => "vote_committee"
  | revokeCommittee => "revoke_committee"
  | submitBill => "submit_bill"
  | voteBill => "vote_bill"
  | registerName => "register_name"
  | createToken => "create_token"
  | transferToken => "transfer_token"
  | lockToken => "lock_token"

def minFee (fees : FeeSchedule) : OpKind → UInt64
  | registerDelegate => fees.registerDelegate
  | voteDelegates => fees.voteDelegate
  | revokeDelegates => fees.revokeDelegate
  | registerCommittee => fees.registerCommittee
  | voteCommittee => fees.voteCommittee
  | revokeCommittee => fees.voteCommittee
  | submitBill => fees.submitBill
  | voteBill => fees.voteBill
  | registerName => fees.registerName
  | createToken => fees.createToken
  | transferToken => fees.sendToken
  | lockToken => fees.lockToken

end OpKind

namespace Operation

def kind? : Operation → Option OpKind
  | registerDelegate _ => some .registerDelegate
  | voteDelegates _ => some .voteDelegates
  | revokeDelegates _ => some .revokeDelegates
  | registerCommittee _ _ => some .registerCommittee
  | voteCommittee _ => some .voteCommittee
  | revokeCommittee _ => some .revokeCommittee
  | submitBill _ => some .submitBill
  | voteBill _ _ => some .voteBill
  | registerName _ => some .registerName
  | createToken _ => some .createToken
  | transferToken _ _ _ _ => some .transferToken
  | lockToken _ _ _ _ _ => some .lockToken
  | unrecognized _ _ => none

def kindName (op : Operation) : String := (op.kind?.map OpKind.name).getD "unrecognized"

def minFee (op : Operation) (fees : FeeSchedule) : UInt64 := (op.kind?.map (·.minFee fees)).getD 0

end Operation

end CivicLedger
