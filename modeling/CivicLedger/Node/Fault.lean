import CivicLedger.Chain.Fault
import CivicLedger.Database.Upkeep
import CivicLedger.Node.Wallet
import CivicLedger.Rules.Refusal

/-!
# Faults of a node
-/

namespace CivicLedger

inductive NameKind where
  | delegate
  | committee
  | tokenAddress
  deriving DecidableEq, Repr

def NameKind.label : NameKind → String
  | delegate => "delegate"
  | committee => "committee"
  | tokenAddress => "token address"

inductive NodeFault where
  | chain (fault : ChainFault)
  | store (fault : StoreFault)
  | schema (fault : Database.SchemaFault)
  | unhealthy (mismatches : List Database.IndexMismatch)
  | payload (fault : PayloadFault)
  | refused (refusal : Refusal)
  | wallet (fault : WalletFault)
  | timeout (seconds : UInt64)
  | amount (fault : InvalidAmount)
  | unknownName (kind : NameKind) (name : String)
  | duplicateName (kind : NameKind) (name : String)
  | insufficientFunds (balance required : UInt64)
  deriving DecidableEq

def NodeFault.message : NodeFault → String
  | chain fault => "ledger error: " ++ fault.message
  | store fault => "store error: " ++ fault.message
  | schema fault => "database error: " ++ fault.message
  | unhealthy mismatches =>
    "ledger database failed its integrity check: " ++
      "; ".intercalate (mismatches.map Database.IndexMismatch.message)
  | payload fault => "codec error: " ++ fault.message
  | refused refusal => refusal.message
  | wallet fault => "transaction builder: " ++ fault.message
  | timeout seconds =>
    "transaction builder did not answer within " ++ toString seconds.toNat ++ "s"
  | amount fault => "invalid amount: " ++ fault.message
  | unknownName kind name => "unknown " ++ kind.label ++ " '" ++ name ++ "'"
  | duplicateName kind name => "duplicate " ++ kind.label ++ " '" ++ name ++ "'"
  | insufficientFunds balance required =>
    "insufficient funds: balance " ++ toString balance.toNat ++ ", fee " ++
      toString required.toNat

end CivicLedger
