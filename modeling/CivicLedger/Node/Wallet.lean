import CivicLedger.Identity

/-!
# The wallet

The wallet puts payloads into transactions of the chain. It numbers the transactions it takes,
refuses all of them once it has been given a reason, or falls silent.
-/

namespace CivicLedger

inductive WalletFault where
  | insufficientFunds (reason : String)
  | rejected (reason : String)
  | unavailable (reason : String)
  deriving DecidableEq, Repr

def WalletFault.message : WalletFault → String
  | insufficientFunds reason => "insufficient funds: " ++ reason
  | rejected reason => "transaction rejected: " ++ reason
  | unavailable reason => "transaction builder unavailable: " ++ reason

structure Request where
  payload : Bytes
  fee : UInt64
  sender : KeyId
  deriving DecidableEq

structure Wallet where
  /-- The requests taken, the oldest first. -/
  taken : List (TxId × Request)
  refusal : Option WalletFault
  silent : Bool
  deriving DecidableEq

namespace Wallet

def empty : Wallet := ⟨[], none, false⟩

/-- The identity of the `n`th transaction: the number in the last eight bytes. -/
def numbered (n : Nat) : TxId :=
  ⟨⟨List.replicate 24 0 ++ Bytes.ofNatBE 8 n, by simp⟩⟩

inductive Reply where
  | taken (tx : TxId)
  | refused (fault : WalletFault)
  | none
  deriving DecidableEq

def send (w : Wallet) (r : Request) : Reply × Wallet :=
  if w.silent then (.none, w)
  else
    match w.refusal with
    | some fault => (.refused fault, w)
    | none =>
      let tx := numbered (w.taken.length + 1)
      (.taken tx, { w with taken := w.taken ++ [(tx, r)] })

end Wallet

end CivicLedger
