import CivicLedger.Rules.Bills
import CivicLedger.Rules.Committees
import CivicLedger.Rules.Delegates
import CivicLedger.Rules.Tokens

/-!
# Admission of operations

An operation is admitted at a point of the chain if its form is right and the ledger as it stands
allows it; what it will do is settled with that.
-/

namespace CivicLedger

open Rules

def assess {σ : Type} [LedgerReads σ] (s : σ) (point : ChainPoint) (sender : KeyId)
    (op : Operation) : Admission Effect :=
  match op.checkForm with
  | .error fault => Admission.refuse (.form fault)
  | .ok () =>
    match op with
    | .registerDelegate name => admitDelegate s point sender name
    | .voteDelegates delegates => admitDelegateVotes s sender delegates.keys
    | .revokeDelegates delegates => admitDelegateRevocation s sender delegates.keys
    | .registerCommittee name url => admitCommittee s point sender name url
    | .voteCommittee committee => admitCommitteeVote s sender committee
    | .revokeCommittee committee => admitCommitteeRevocation s sender committee
    | .submitBill draft => admitBill s point sender draft
    | .voteBill bill choice => admitBallot s point sender bill choice
    | .registerName name => admitName s sender name
    | .createToken draft => admitToken s point sender draft
    | .transferToken token recipient amount _ => admitTransfer s point sender token recipient amount
    | .lockToken token recipient amount expiry _ =>
      admitLock s point sender token recipient amount expiry
    | .unrecognized opcode _ => Admission.refuse (.unrecognized opcode)

end CivicLedger
