import CivicLedger.Operation.Basic
import CivicLedger.Wire

/-!
# Payloads

The bytes that carry an operation: its opcode and then its body. A payload is read only if it is
what writing its operation gives, so each operation has one payload.
-/

namespace CivicLedger

inductive PayloadFault where
  | empty
  | tooLarge (length : Nat)
  | malformed (opcode : UInt8) (fault : WireFault)
  | nonCanonical (opcode : UInt8)
  deriving DecidableEq, Repr

namespace Payload

def maxLength : Nat := 4096

def ofSet (s : SortedSet KeyId) : Bytes := Wire.ofList Wire.ofKey s.keys

def bytesOf : Operation → UInt8 × Bytes
  | .registerDelegate name => (OpKind.registerDelegate.opcode, Wire.ofText name)
  | .voteDelegates delegates => (OpKind.voteDelegates.opcode, ofSet delegates)
  | .revokeDelegates delegates => (OpKind.revokeDelegates.opcode, ofSet delegates)
  | .registerCommittee name url =>
    (OpKind.registerCommittee.opcode, Wire.ofText name ++ Wire.ofText url)
  | .voteCommittee committee => (OpKind.voteCommittee.opcode, Wire.ofKey committee)
  | .revokeCommittee committee => (OpKind.revokeCommittee.opcode, Wire.ofKey committee)
  | .submitBill d =>
    (OpKind.submitBill.opcode,
      Wire.ofText d.title ++ Wire.ofText d.detail ++ Wire.ofText d.url ++
        Bytes.ofUInt16LE d.days ++ Wire.ofList Wire.ofText d.options)
  | .voteBill bill choice => (OpKind.voteBill.opcode, Wire.ofBill bill ++ [choice])
  | .registerName name => (OpKind.registerName.opcode, Wire.ofText name)
  | .createToken d =>
    (OpKind.createToken.opcode,
      Wire.ofText d.symbol ++ Wire.ofText d.name ++ Wire.ofKey d.address ++
        Bytes.ofUInt64LE d.total ++ [d.digits])
  | .transferToken token recipient amount comment =>
    (OpKind.transferToken.opcode,
      Wire.ofToken token ++ Wire.ofKey recipient ++ Bytes.ofUInt64LE amount ++ Wire.ofText comment)
  | .lockToken token recipient amount expiry comment =>
    (OpKind.lockToken.opcode,
      Wire.ofToken token ++ Wire.ofKey recipient ++ Bytes.ofUInt64LE amount ++
        Bytes.ofUInt64LE expiry ++ Wire.ofText comment)
  | .unrecognized opcode body => (opcode, body)

def encode (op : Operation) : Except PayloadFault Bytes :=
  let (opcode, body) := bytesOf op
  if body.length + 1 ≤ maxLength then .ok (opcode :: body) else .error (.tooLarge (body.length + 1))

/-- Members in any order, of which equal ones count once. -/
def readSet : Reader (SortedSet KeyId) := do return SortedSet.ofKeys (← Wire.list Wire.key)

def readBody : OpKind → Reader Operation
  | .registerDelegate => do return .registerDelegate (← Wire.text)
  | .voteDelegates => do return .voteDelegates (← readSet)
  | .revokeDelegates => do return .revokeDelegates (← readSet)
  | .registerCommittee => do
    let name ← Wire.text
    return .registerCommittee name (← Wire.text)
  | .voteCommittee => do return .voteCommittee (← Wire.key)
  | .revokeCommittee => do return .revokeCommittee (← Wire.key)
  | .submitBill => do
    let title ← Wire.text
    let detail ← Wire.text
    let url ← Wire.text
    let days ← Wire.word16
    return .submitBill ⟨title, detail, url, days, ← Wire.list Wire.text⟩
  | .voteBill => do
    let bill ← Wire.bill
    return .voteBill bill (← Wire.byte)
  | .registerName => do return .registerName (← Wire.text)
  | .createToken => do
    let symbol ← Wire.text
    let name ← Wire.text
    let address ← Wire.key
    let total ← Wire.word64
    return .createToken ⟨symbol, name, address, total, ← Wire.byte⟩
  | .transferToken => do
    let token ← Wire.token
    let recipient ← Wire.key
    let amount ← Wire.word64
    return .transferToken token recipient amount (← Wire.text)
  | .lockToken => do
    let token ← Wire.token
    let recipient ← Wire.key
    let amount ← Wire.word64
    let expiry ← Wire.word64
    return .lockToken token recipient amount expiry (← Wire.text)

def decode : Bytes → Except PayloadFault Operation
  | [] => .error .empty
  | opcode :: body =>
    if maxLength < body.length + 1 then .error (.tooLarge (body.length + 1))
    else
      match OpKind.ofOpcode? opcode with
      | none => .ok (.unrecognized opcode body)
      | some kind =>
        match Wire.readAll (readBody kind) body with
        | .error fault => .error (.malformed opcode fault)
        | .ok op => do
          if (← encode op) = opcode :: body then .ok op else .error (.nonCanonical opcode)

def opcodeText (b : UInt8) : String := "0x" ++ Hex.encode [b]

end Payload

def PayloadFault.message : PayloadFault → String
  | empty => "empty payload"
  | tooLarge length =>
    "payload of " ++ toString length ++ " bytes exceeds the " ++ toString Payload.maxLength ++
      "-byte limit"
  | malformed opcode fault =>
    "malformed " ++ Payload.opcodeText opcode ++ " body: " ++ fault.message
  | nonCanonical opcode => "non-canonical encoding of opcode " ++ Payload.opcodeText opcode

end CivicLedger
