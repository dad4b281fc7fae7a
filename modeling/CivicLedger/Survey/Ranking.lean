import CivicLedger.Identity

/-!
# Rankings

Addresses by weight, the heaviest first; addresses of equal weight in their own order. A ranking of
`n` is the beginning of every longer one.
-/

namespace CivicLedger.Ranking

variable {α : Type}

def precedes (weight : α → UInt64) (address : α → KeyId) (a b : α) : Bool :=
  decide (weight b < weight a) ||
    (weight a == weight b && !KeyOrder.before (address b) (address a))

def top (weight : α → UInt64) (address : α → KeyId) (n : Nat) (l : List α) : List α :=
  (l.mergeSort (precedes weight address)).take n

end CivicLedger.Ranking
