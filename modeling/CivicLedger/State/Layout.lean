import CivicLedger.State.Record
import CivicLedger.Wire

/-!
# The bytes of records

The fields of a record stand one after another in their order.
-/

namespace CivicLedger

namespace Delegate

def toBytes (d : Delegate) : Bytes :=
  Wire.ofKey d.address ++ Wire.ofText d.name ++ Bytes.ofUInt64LE d.height

def reader : Reader Delegate := do
  let address ← Wire.key
  let name ← Wire.text
  return ⟨address, name, ← Wire.word64⟩

end Delegate

namespace Committee

def toBytes (c : Committee) : Bytes :=
  Wire.ofKey c.address ++ Wire.ofText c.name ++ Wire.ofText c.url ++ Bytes.ofUInt64LE c.height

def reader : Reader Committee := do
  let address ← Wire.key
  let name ← Wire.text
  let url ← Wire.text
  return ⟨address, name, url, ← Wire.word64⟩

end Committee

namespace Bill

def toBytes (b : Bill) : Bytes :=
  Wire.ofBill b.id ++ Wire.ofText b.title ++ Wire.ofText b.detail ++ Wire.ofText b.url ++
    Wire.ofKey b.committee ++ Bytes.ofUInt64LE b.opened ++ Bytes.ofUInt64LE b.closes ++
    Wire.ofList Wire.ofText b.options ++ Bytes.ofUInt64LE b.height

def reader : Reader Bill := do
  let id ← Wire.bill
  let title ← Wire.text
  let detail ← Wire.text
  let url ← Wire.text
  let committee ← Wire.key
  let opened ← Wire.word64
  let closes ← Wire.word64
  let options ← Wire.list Wire.text
  return ⟨id, title, detail, url, committee, opened, closes, options, ← Wire.word64⟩

end Bill

namespace Ballot

def toBytes (b : Ballot) : Bytes := b.choice :: Wire.ofOption Bytes.ofUInt64LE b.weight

def reader : Reader Ballot := do
  let choice ← Wire.byte
  return ⟨choice, ← Wire.option Wire.word64⟩

end Ballot

namespace Settlement

def toBytes (s : Settlement) : Bytes :=
  Wire.ofFlag s.passed ++ Wire.ofOption (fun w => [w]) s.winner ++ Bytes.ofUInt64LE s.total ++
    Wire.ofList Bytes.ofUInt64LE s.totals ++ Bytes.ofUInt64LE s.height ++ Bytes.ofUInt64LE s.time

def reader : Reader Settlement := do
  let passed ← Wire.flag
  let winner ← Wire.option Wire.byte
  let total ← Wire.word64
  let totals ← Wire.list Wire.word64
  let height ← Wire.word64
  return ⟨passed, winner, total, totals, height, ← Wire.word64⟩

end Settlement

namespace Token

def toBytes (t : Token) : Bytes :=
  Wire.ofToken t.id ++ Wire.ofText t.symbol ++ Wire.ofText t.name ++ Wire.ofKey t.owner ++
    Wire.ofKey t.address ++ Bytes.ofUInt64LE t.total ++ [t.digits] ++ Bytes.ofUInt64LE t.height

def reader : Reader Token := do
  let id ← Wire.token
  let symbol ← Wire.text
  let name ← Wire.text
  let owner ← Wire.key
  let address ← Wire.key
  let total ← Wire.word64
  let digits ← Wire.byte
  return ⟨id, symbol, name, owner, address, total, digits, ← Wire.word64⟩

end Token

def TokenLock.toBytes (l : TokenLock) : Bytes :=
  Wire.ofToken l.token ++ Wire.ofKey l.holder ++ Bytes.ofUInt64LE l.expiry ++
    Bytes.ofUInt64LE l.amount

namespace Cursor

def toBytes (c : Cursor) : Bytes := Bytes.ofUInt64LE c.height ++ Bytes.ofUInt32LE c.nextTx

def reader : Reader Cursor := do
  let height ← Wire.word64
  return ⟨height, ← Wire.word32⟩

end Cursor

namespace ChainPoint

def toBytes (p : ChainPoint) : Bytes := Bytes.ofUInt64LE p.height ++ Bytes.ofUInt64LE p.time

def reader : Reader ChainPoint := do
  let height ← Wire.word64
  return ⟨height, ← Wire.word64⟩

end ChainPoint

end CivicLedger
