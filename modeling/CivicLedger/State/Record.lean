import CivicLedger.Identity
import CivicLedger.Time

/-!
# Records

What the ledger keeps of delegates, committees, bills, votes, tokens and locks, and how far it has
come along the chain.
-/

namespace CivicLedger

structure Delegate where
  address : KeyId
  name : String
  height : Height
  deriving DecidableEq

structure Committee where
  address : KeyId
  name : String
  url : String
  height : Height
  deriving DecidableEq

structure Bill where
  id : BillId
  title : String
  detail : String
  url : String
  committee : KeyId
  opened : Timestamp
  closes : Timestamp
  options : List String
  height : Height
  deriving DecidableEq

/-- Voting is over once the time has reached the end of the window. -/
def Bill.isClosedAt (b : Bill) (time : Timestamp) : Bool := b.closes ≤ time

/-- A vote on a bill. Its weight is known once the bill is settled. -/
structure Ballot where
  choice : UInt8
  weight : Option UInt64
  deriving DecidableEq, Repr

/-- How a bill came out, settled once when its window has closed. -/
structure Settlement where
  passed : Bool
  /-- The option of the highest total, the first of several; none without any weight. -/
  winner : Option UInt8
  total : UInt64
  totals : List UInt64
  height : Height
  time : Timestamp
  deriving DecidableEq, Repr

structure Token where
  id : TokenId
  symbol : String
  name : String
  owner : KeyId
  /-- The address the token is bound to; an address has at most one. -/
  address : KeyId
  /-- The whole supply in raw units. -/
  total : UInt64
  digits : UInt8
  height : Height
  deriving DecidableEq

/-- Tokens that their holder cannot spend below a height. -/
structure TokenLock where
  token : TokenId
  holder : KeyId
  expiry : Height
  amount : UInt64
  deriving DecidableEq

def TokenLock.isMaturedAt (l : TokenLock) (height : Height) : Bool := l.expiry ≤ height

/-- The next transaction expected: all blocks below `height` and all transactions of that block
below `nextTx` are behind. -/
structure Cursor where
  height : Height
  nextTx : UInt32
  deriving DecidableEq, Repr

namespace Cursor

def covers (c : Cursor) (height : Height) (index : UInt32) : Bool :=
  decide (height < c.height) || (decide (height = c.height) && decide (index < c.nextTx))

/-- Heights decide; transactions do at equal heights. -/
def compare (c d : Cursor) : Ordering :=
  (Ord.compare c.height d.height).then (Ord.compare c.nextTx d.nextTx)

end Cursor

end CivicLedger
