import CivicLedger.Amount

/-!
# Networks and fees

Each network has its port and its schedule of least fees. The schedule is part of the rules: every
node of a network admits by the same one.
-/

namespace CivicLedger

inductive Network where
  | live
  | test
  | dev
  deriving DecidableEq, Repr

/-- The least fee of each operation, in raw coin units. -/
structure FeeSchedule where
  registerDelegate : UInt64
  voteDelegate : UInt64
  revokeDelegate : UInt64
  registerCommittee : UInt64
  registerName : UInt64
  /-- For votes on committees and for their revocation. -/
  voteCommittee : UInt64
  submitBill : UInt64
  voteBill : UInt64
  createToken : UInt64
  sendToken : UInt64
  lockToken : UInt64
  deriving DecidableEq, Repr

def FeeSchedule.flat (fee : UInt64) : FeeSchedule :=
  ⟨fee, fee, fee, fee, fee, fee, fee, fee, fee, fee, fee⟩

structure UnknownNetwork where
  text : String
  deriving DecidableEq, Repr

def UnknownNetwork.message (e : UnknownNetwork) : String := "unknown network: " ++ e.text

namespace Network

def name : Network → String
  | live => "live"
  | test => "test"
  | dev => "dev"

def ofName? (s : String) : Option Network := [live, test, dev].find? (·.name = s)

def parse (s : String) : Except UnknownNetwork Network :=
  match ofName? s.toLower with
  | some n => .ok n
  | none => .error ⟨s⟩

def port : Network → UInt16
  | live => 9332
  | test => 19332
  | dev => 29332

def baseFee : UInt64 := Amount.coin / 100

def fees : Network → FeeSchedule
  | live =>
    { registerDelegate := 10 * Amount.coin
      voteDelegate := baseFee
      revokeDelegate := baseFee
      registerCommittee := 10 * Amount.coin
      registerName := Amount.coin
      voteCommittee := baseFee
      submitBill := Amount.coin
      voteBill := baseFee
      createToken := 10 * Amount.coin
      sendToken := baseFee
      lockToken := baseFee }
  | test => .flat baseFee
  | dev => .flat 0

end Network

end CivicLedger
