import CivicLedger.State.Record
import CivicLedger.Wire

/-!
# Store faults

Why a read or an edit of a store fails: an entry is missing or is there already, a key has a length
that the tables do not take, or stored bytes cannot be read.
-/

namespace CivicLedger

/-- What an entry of a store stands for. -/
inductive Entry where
  | delegate (address : KeyId)
  | delegateName (name : String)
  | delegateVote (voter delegate : KeyId)
  | committee (address : KeyId)
  | committeeName (name : String)
  | committeeVoter (voter : KeyId)
  | committeeVote (voter committee : KeyId)
  | bill (id : BillId)
  | ballot (voter : KeyId) (bill : BillId)
  | settlement (bill : BillId)
  | nameOf (address : KeyId)
  | name (given : String)
  | token (id : TokenId)
  | tokenAddress (address : KeyId)
  | tokenSymbol (symbol : String) (owner : KeyId)
  | lock (token : TokenId) (holder : KeyId) (expiry : Height)
  | note (key : String)
  deriving DecidableEq

def Entry.text : Entry → String
  | delegate address => "delegate " ++ address.text
  | delegateName given => "delegate name '" ++ given ++ "'"
  | delegateVote voter target => "vote " ++ voter.text ++ " -> " ++ target.text
  | committee address => "committee " ++ address.text
  | committeeName given => "committee name '" ++ given ++ "'"
  | committeeVoter voter => "committee vote of " ++ voter.text
  | committeeVote voter target => "committee vote " ++ voter.text ++ " -> " ++ target.text
  | bill id => "bill " ++ id.text
  | ballot voter id => "vote of " ++ voter.text ++ " on bill " ++ id.text
  | settlement id => "state of bill " ++ id.text
  | nameOf address => "name of " ++ address.text
  | name given => "name '" ++ given ++ "'"
  | token id => "token " ++ id.text
  | tokenAddress address => "token address " ++ address.text
  | tokenSymbol symbol owner => "token symbol '" ++ symbol ++ "' of " ++ owner.text
  | lock id holder expiry =>
    "lock of token " ++ id.text ++ " held by " ++ holder.text ++ " at " ++ toString expiry.toNat
  | note key => "meta key '" ++ key ++ "'"

inductive UnreadableCause where
  | layout (fault : WireFault)
  | shortKey (offset : Nat)
  | shortBill (offset : Nat)
  | shortWord (offset : Nat)
  | schemaVersion
  deriving DecidableEq, Repr

def UnreadableCause.text : UnreadableCause → String
  | layout fault => fault.message
  | shortKey offset => "short key id at offset " ++ toString offset
  | shortBill offset => "short bill id at offset " ++ toString offset
  | shortWord offset => "short u64 at offset " ++ toString offset
  | schemaVersion => "schema_version has unexpected byte length"

inductive CorruptionCause where
  | storedKey (fault : IdentityFault)
  | storedName (fault : Utf8Fault)
  | lockOverflow (holder : KeyId)
  deriving DecidableEq

def CorruptionCause.text : CorruptionCause → String
  | storedKey fault => "stored key id: " ++ KeyId.faultMessage fault
  | storedName fault => "stored name: " ++ fault.message
  | lockOverflow holder => "lock amount overflow for " ++ holder.text

inductive StoreFault where
  | notFound (entry : Entry)
  | duplicate (entry : Entry)
  /-- The tables take keys of 1 to 511 bytes. -/
  | badKeySize
  | unreadable (cause : UnreadableCause)
  | corrupt (cause : CorruptionCause)
  deriving DecidableEq

def StoreFault.message : StoreFault → String
  | notFound entry => "key not found: " ++ entry.text
  | duplicate entry => "duplicate key: " ++ entry.text
  | badKeySize =>
    "storage backend error: LMDB error: MDB_BAD_VALSIZE: Unsupported size of key/DB name/data, " ++
      "or wrong DUPFIXED size"
  | unreadable cause => "serialization error: " ++ cause.text
  | corrupt cause => "database is corrupted: " ++ cause.text

end CivicLedger
