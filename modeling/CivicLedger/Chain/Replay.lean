import CivicLedger.Chain.Apply

/-!
# Replaying a chain

Applies blocks one after another, each with its own coin balances, up to the first fault.
-/

namespace CivicLedger.Chain

structure ReplaySummary where
  blocks : Nat
  skipped : Nat
  applied : Nat
  refused : Nat
  malformed : Nat
  unrecognized : Nat
  settled : Nat
  deriving DecidableEq, Repr

namespace ReplaySummary

def empty : ReplaySummary := ⟨0, 0, 0, 0, 0, 0, 0⟩

def record (s : ReplaySummary) (r : BlockReport) : ReplaySummary where
  blocks := s.blocks + 1
  skipped := if r.skipped then s.skipped + 1 else s.skipped
  applied := s.applied + r.applied
  refused := s.refused + r.refused
  malformed := s.malformed + r.malformed
  unrecognized := s.unrecognized + r.unrecognized
  settled := s.settled + r.settled.length

end ReplaySummary

structure Replayed (σ : Type) where
  result : Except ChainFault ReplaySummary
  applicant : Applicant
  store : σ

variable {σ : Type} [LedgerEdits σ]

def replayFrom (fees : FeeSchedule) :
    List (Block × Coins) → ReplaySummary → Applicant → σ → Replayed σ
  | [], summary, a, s => ⟨.ok summary, a, s⟩
  | (b, coins) :: rest, summary, a, s =>
    let r := apply fees a b coins s
    match r.result with
    | .ok report => replayFrom fees rest (summary.record report) r.applicant r.store
    | .error fault => ⟨.error fault, r.applicant, r.store⟩

def replay (fees : FeeSchedule) (blocks : List (Block × Coins)) (a : Applicant) (s : σ) :
    Replayed σ :=
  replayFrom fees blocks .empty a s

end CivicLedger.Chain
