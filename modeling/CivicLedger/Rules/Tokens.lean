import CivicLedger.Rules.Effect
import CivicLedger.Rules.Refusal
import CivicLedger.State.Interface

/-!
# Admission of names, tokens and payments

An address takes a name once. Owners with a name create tokens, each bound to an address of its own
and with a symbol that the owner uses once. A payment may take what is available and what has
matured, and no more.
-/

namespace CivicLedger.Rules

variable {σ : Type} [LedgerReads σ]

open LedgerReads Admission

def admitName (s : σ) (sender : KeyId) (name : String) : Admission Effect := do
  if (← read (nameOf? s sender)).isSome then refuse (.addressNamed sender)
  if (← read (named? s name)).isSome then refuse (.nameTaken name)
  return .registerName sender name

def admitToken (s : σ) (point : ChainPoint) (sender : KeyId) (d : TokenDraft) :
    Admission Effect := do
  if (← read (nameOf? s sender)).isNone then refuse (.ownerUnnamed sender)
  if (← read (tokenAt? s d.address)).isSome then refuse (.tokenAddressBound d.address)
  let unit := (Amount.unit? d.digits).getD Word.max
  if d.total % unit ≠ 0 then refuse (.fractionalSupply d.total d.digits)
  let supply := d.total / unit
  if maxTokenSupply < supply then refuse (.supplyTooLarge supply)
  if (← read (tokenWithSymbol? s sender d.symbol)).isSome then refuse (.tokenSymbolTaken d.symbol)
  let id ← read (nextTokenId s)
  return .createToken ⟨id, d.symbol, d.name, sender, d.address, d.total, d.digits, point.height⟩

/-- What a holder has available, and its locks that have matured at a height. -/
def spendable (s : σ) (token : TokenId) (holder : KeyId) (height : Height) :
    Except StoreFault (UInt64 × List TokenLock) := do
  let available ← tokenBalance s token holder
  let locks ← locksOf s token holder
  return (available, locks.filter (·.isMaturedAt height))

def spendableTotal (available : UInt64) (matured : List TokenLock) : UInt64 :=
  matured.foldl (fun n l => Word.satAdd n l.amount) available

def admitDebit (s : σ) (point : ChainPoint) (sender : KeyId) (id : TokenId) (target : KeyId)
    (amount : UInt64) : Admission TokenDebit := do
  match ← read (token? s id) with
  | none => refuse (.unknownToken id)
  | some token =>
    if token.total < amount then refuse (.amountExceedsSupply amount token.total)
    let (available, matured) ← read (spendable s id sender point.height)
    let total := spendableTotal available matured
    if total < amount then refuse (.insufficientTokenBalance total amount)
    return ⟨id, sender, target, amount, matured⟩

def admitTransfer (s : σ) (point : ChainPoint) (sender : KeyId) (id : TokenId) (target : KeyId)
    (amount : UInt64) : Admission Effect := do
  return .transferToken (← admitDebit s point sender id target amount)

def admitLock (s : σ) (point : ChainPoint) (sender : KeyId) (id : TokenId) (target : KeyId)
    (amount : UInt64) (expiry : Height) : Admission Effect := do
  if expiry ≤ point.height then refuse (.lockExpiryPassed expiry point.height)
  return .lockToken (← admitDebit s point sender id target amount) expiry

end CivicLedger.Rules
