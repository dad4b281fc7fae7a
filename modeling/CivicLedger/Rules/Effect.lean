import CivicLedger.Operation.Basic
import CivicLedger.State.Record

/-!
# Effects

What an admitted operation does to the ledger, with everything it needs to know.
-/

namespace CivicLedger

/-- Token units that leave an address. -/
structure TokenDebit where
  token : TokenId
  source : KeyId
  target : KeyId
  amount : UInt64
  /-- Locks of the source that have matured: they become available first. -/
  matured : List TokenLock
  deriving DecidableEq

inductive Effect where
  | registerDelegate (delegate : Delegate)
  | voteDelegates (voter : KeyId) (delegates : List KeyId)
  | revokeDelegates (voter : KeyId) (delegates : List KeyId)
  | registerCommittee (committee : Committee)
  | voteCommittee (voter committee : KeyId)
  | revokeCommittee (voter committee : KeyId)
  | submitBill (bill : Bill)
  | voteBill (bill : BillId) (voter : KeyId) (choice : UInt8)
  | registerName (address : KeyId) (name : String)
  /-- The owner receives the whole supply. -/
  | createToken (token : Token)
  | transferToken (debit : TokenDebit)
  /-- The target receives a lock that matures at the expiry. -/
  | lockToken (debit : TokenDebit) (expiry : Height)
  deriving DecidableEq

def Effect.kind : Effect → OpKind
  | registerDelegate _ => .registerDelegate
  | voteDelegates _ _ => .voteDelegates
  | revokeDelegates _ _ => .revokeDelegates
  | registerCommittee _ => .registerCommittee
  | voteCommittee _ _ => .voteCommittee
  | revokeCommittee _ _ => .revokeCommittee
  | submitBill _ => .submitBill
  | voteBill _ _ _ => .voteBill
  | registerName _ _ => .registerName
  | createToken _ => .createToken
  | transferToken _ => .transferToken
  | lockToken _ _ => .lockToken

end CivicLedger
