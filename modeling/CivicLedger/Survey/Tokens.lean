import CivicLedger.Survey.Basic

/-!
# Questions about tokens
-/

namespace CivicLedger

structure LockStanding where
  expiry : Height
  amount : UInt64
  matured : Bool
  deriving DecidableEq, Repr

structure TokenStanding where
  token : TokenId
  symbol : String
  address : KeyId
  digits : UInt8
  available : UInt64
  locks : List LockStanding
  deriving DecidableEq

def TokenStanding.spendable (t : TokenStanding) : UInt64 :=
  (t.locks.filter LockStanding.matured).foldl (fun n l => Word.satAdd n l.amount) t.available

namespace Survey

variable {σ : Type} [LedgerReads σ]

open LedgerReads

/-- The token bound to an address, or all tokens. -/
def tokenInfo (v : Survey σ) : Option KeyId → Except SurveyFault (List Token)
  | some address => do
    match ← v.ask (tokenAt? · address) with
    | some id => return (← v.ask (token? · id)).toList
    | none => return []
  | none => v.ask tokens

def lockStanding (v : Survey σ) (l : TokenLock) : LockStanding :=
  ⟨l.expiry, l.amount, l.isMaturedAt v.point.height⟩

def tokenStanding (v : Survey σ) (holder : KeyId) (id : TokenId) :
    Except SurveyFault (Option TokenStanding) := do
  match ← v.ask (token? · id) with
  | none => return none
  | some t =>
    let locks ← v.ask (locksOf · id holder)
    let available ← v.ask (tokenBalance · id holder)
    return some ⟨id, t.symbol, t.address, t.digits, available, locks.map v.lockStanding⟩

/-- What a holder has of the token bound to an address, or of all tokens it has ever held. -/
def tokenBalances (v : Survey σ) (holder : KeyId) (address? : Option KeyId) :
    Except SurveyFault (List TokenStanding) := do
  let ids ← match address? with
    | some address => do pure (← v.ask (tokenAt? · address)).toList
    | none => v.ask (tokensHeldBy · holder)
  return (← ids.mapM (v.tokenStanding holder)).filterMap id

end Survey

end CivicLedger
