import CivicLedger.Chain.Apply
import CivicLedger.Node.Fault
import CivicLedger.Node.Metrics
import CivicLedger.Node.Notice

/-!
# Following the chain

A node keeps its store, the coin balances of the last block it recorded, and the last block it
applied. For each block it first records the balances that came with it, and then applies it with
the balances it has. A node opened again over the same store has the same balances and block.
-/

namespace CivicLedger

structure Update where
  block : Block
  changes : List (KeyId × UInt64)
  deriving DecidableEq

/-- The coin balances a node works with, and the height they are from. -/
structure Sheet where
  height : Height
  coins : Coins
  deriving DecidableEq

namespace Sheet

def empty : Sheet := ⟨0, ∅⟩

def update (s : Sheet) (height : Height) (changes : List (KeyId × UInt64)) : Sheet :=
  ⟨height, s.coins.update changes⟩

def ofRecorded (height : Height) (balances : List (KeyId × UInt64)) : Sheet :=
  ⟨height, SortedMap.ofList (balances.filter fun e => 0 < e.2)⟩

end Sheet

structure Node (σ : Type) where
  store : σ
  applicant : Applicant
  sheet : Sheet
  tip : ChainPoint
  metrics : Metrics

/-- What a node and its listeners have from an update. -/
structure Delivery (σ : Type) where
  result : Except NodeFault BlockReport
  node : Node σ
  notices : List Notice

namespace Node

variable {σ : Type} [LedgerEdits σ]

open LedgerReads LedgerEdits

def readStore {α : Type} : Except StoreFault α → Except NodeFault α
  | .ok a => .ok a
  | .error fault => .error (.store fault)

/-- Opens a node over a store. Without a recorded block it begins at the cursor's height. -/
def restore (s : σ) : Except NodeFault (Node σ) := do
  let synced ← readStore (synced? s)
  let recorded ← readStore (coinBalances s)
  match cursor? s with
  | .error fault => throw (.chain (.storage fault))
  | .ok cursor =>
    let (sheet, tip) := match synced, cursor with
      | some point, _ => (Sheet.ofRecorded point.height recorded, point)
      | none, some c => (Sheet.empty, ⟨c.height, 0⟩)
      | none, none => (Sheet.empty, ⟨0, 0⟩)
    return ⟨s, Chain.fresh, sheet, tip, Metrics.zero⟩

def recordEdits (u : Update) : Edit σ Unit := do
  u.changes.forM fun e => setCoinBalance e.1 e.2
  setSynced u.block.point

/-- Records the balances of a block, unless later ones are recorded already. -/
def recordBalances (n : Node σ) (u : Update) : Except NodeFault (Node σ) := do
  let later : Bool := match ← readStore (synced? n.store) with
    | some point => u.block.height < point.height
    | none => false
  if later then return n
  match recordEdits u n.store with
  | .ok () s => return { n with store := s, sheet := n.sheet.update u.block.height u.changes }
  | .error fault _ => throw (.store fault)

def settleReport (n : Node σ) (u : Update) (r : BlockReport) : Node σ :=
  { n with
    tip := if r.skipped then n.tip else u.block.point
    metrics := n.metrics.record r }

/-- Takes an update. -/
def deliver (fees : FeeSchedule) (n : Node σ) (u : Update) : Delivery σ :=
  match Chain.check n.applicant u.block with
  | .error fault => ⟨.error (.chain fault), n, Notice.ofFault u.block.height fault⟩
  | .ok () =>
    match n.recordBalances u with
    | .error fault => ⟨.error fault, n, []⟩
    | .ok n =>
      let r := Chain.apply fees n.applicant u.block n.sheet.coins n.store
      let n := { n with store := r.store, applicant := r.applicant }
      match r.result with
      | .error fault => ⟨.error (.chain fault), n, Notice.ofFault u.block.height fault⟩
      | .ok report => ⟨.ok report, n.settleReport u report, Notice.ofReport report⟩

/-- Whether a node goes on after a fault: blocks out of order are dropped. -/
def isDropped : NodeFault → Bool
  | .chain fault => !fault.isFatal
  | _ => false

structure Followed (σ : Type) where
  /-- The fault that ended it, if one did. -/
  fault : Option NodeFault
  node : Node σ

def follow (fees : FeeSchedule) : List Update → Node σ → Followed σ
  | [], n => ⟨none, n⟩
  | u :: rest, n =>
    let d := deliver fees n u
    match d.result with
    | .ok _ => follow fees rest d.node
    | .error fault => if isDropped fault then follow fees rest d.node else ⟨some fault, d.node⟩

end Node

/-- Opens a node over a database: its schema is brought up to date and its indexes are checked. -/
def Node.ofDatabase (db : Database) : Except NodeFault (Node Database) :=
  match Database.open? db with
  | .error fault => .error (.schema fault)
  | .ok db =>
    if db.health.isHealthy then Node.restore db else .error (.unhealthy db.health.mismatches)

end CivicLedger
