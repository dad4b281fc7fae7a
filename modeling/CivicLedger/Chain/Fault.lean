import CivicLedger.State.Interface

/-!
# Faults of the chain

Why a block is not applied. A store that cannot hold what the rules admitted is an inconsistency,
after which no block is applied any more.
-/

namespace CivicLedger

/-- How the rules and the store came to disagree. -/
inductive Inconsistency where
  | store (fault : StoreFault)
  | dueWithoutRecord (bill : BillId)
  | overflow (token : TokenId) (holder : KeyId)
  | underflow (token : TokenId) (holder : KeyId) (available amount : UInt64)
  deriving DecidableEq

def Inconsistency.message : Inconsistency → String
  | store fault => fault.message
  | dueWithoutRecord bill => "bill " ++ bill.text ++ " is due but has no record"
  | overflow token holder =>
    "token " ++ token.text ++ " balance of " ++ holder.text ++ " overflows"
  | underflow token holder available amount =>
    "token " ++ token.text ++ " balance of " ++ holder.text ++ " is " ++
      toString available.toNat ++ ", below admitted debit " ++ toString amount.toNat

inductive ChainFault where
  | inconsistent (cause : Inconsistency)
  | blockOrder (height last : Height)
  | txOrder (height : Height) (index : UInt32)
  | halted
  | storage (fault : StoreFault)
  deriving DecidableEq

namespace ChainFault

def message : ChainFault → String
  | inconsistent cause => "internal inconsistency: " ++ cause.message
  | blockOrder height last =>
    "block " ++ toString height.toNat ++ " delivered after block " ++ toString last.toNat
  | txOrder height index =>
    "transaction index " ++ toString index.toNat ++ " out of order in block " ++
      toString height.toNat
  | halted => "applier halted after an internal inconsistency"
  | storage fault => "storage error: " ++ fault.message

/-- Whether no block can be applied after it. -/
def isFatal : ChainFault → Bool
  | inconsistent _ => true
  | halted => true
  | _ => false

/-- What a fault of the store means while an admitted effect is being stored: an entry that is
missing, or there already, is an inconsistency. -/
def ofStore : StoreFault → ChainFault
  | .notFound entry => .inconsistent (.store (.notFound entry))
  | .duplicate entry => .inconsistent (.store (.duplicate entry))
  | fault => .storage fault

end ChainFault

abbrev Step (σ : Type) (α : Type) := EStateM ChainFault σ α

namespace Step

variable {σ α : Type}

def consistent (e : Edit σ α) : Step σ α := fun s =>
  match e s with
  | .ok a s => .ok a s
  | .error fault s => .error (ChainFault.ofStore fault) s

def stored (e : Edit σ α) : Step σ α := fun s =>
  match e s with
  | .ok a s => .ok a s
  | .error fault s => .error (.storage fault) s

def read (f : σ → Except StoreFault α) : Step σ α := stored (Edit.read f)

/-- Commits all of a step or, where it fails, nothing of it. -/
def atomically (step : Step σ α) : Step σ α := fun s =>
  match step s with
  | .ok a s' => .ok a s'
  | .error fault _ => .error fault s

end Step

end CivicLedger
