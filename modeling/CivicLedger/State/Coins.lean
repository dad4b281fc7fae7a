import CivicLedger.Identity
import CivicLedger.Ordered.Map

/-!
# Coin balances

Balances of the chain's own coins by address. An address without an entry has none, and no entry is
zero as long as balances are only set.
-/

namespace CivicLedger

abbrev Coins := SortedMap KeyId UInt64

namespace Coins

def balance (c : Coins) (address : KeyId) : UInt64 := (c.get? address).getD 0

/-- Zero removes the entry. -/
def put (c : Coins) (address : KeyId) (amount : UInt64) : Coins :=
  if amount = 0 then c.erase address else c.insert address amount

def update (c : Coins) (changes : List (KeyId × UInt64)) : Coins :=
  changes.foldl (fun c e => c.put e.1 e.2) c

def ofList (l : List (KeyId × UInt64)) : Coins := update ∅ l

end Coins

end CivicLedger
