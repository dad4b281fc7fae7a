import CivicLedger.Node.Fault
import CivicLedger.Survey.Basic

/-!
# Faults as clients see them

Every fault of a call has a kind, a number and a text.
-/

namespace CivicLedger.Gateway

inductive FaultKind where
  | parse
  | invalidRequest
  | methodNotFound
  | invalidParams
  | invalidAddress
  | rejected
  | insufficientFunds
  | wallet
  | database
  | internal
  deriving DecidableEq, Repr

namespace FaultKind

def code : FaultKind → Int
  | parse => -32700
  | invalidRequest => -32600
  | methodNotFound => -32601
  | invalidParams => -8
  | invalidAddress => -5
  | rejected => -26
  | insufficientFunds => -6
  | wallet => -4
  | database => -20
  | internal => -32603

def lead : FaultKind → String
  | parse => "parse error"
  | invalidRequest => "invalid request: "
  | methodNotFound => "method not found: "
  | invalidParams => "invalid params: "
  | database => "database error: "
  | internal => "internal error: "
  | _ => ""

end FaultKind

structure Fault where
  kind : FaultKind
  detail : String
  deriving DecidableEq, Repr

namespace Fault

def message (f : Fault) : String := f.kind.lead ++ f.detail

def ofStore (f : StoreFault) : Fault := ⟨.database, f.message⟩

def ofSurvey : SurveyFault → Fault
  | .unknownDelegate name => ⟨.invalidAddress, (SurveyFault.unknownDelegate name).message⟩
  | .noThresholds => ⟨.invalidParams, SurveyFault.noThresholds.message⟩
  | .zeroThreshold => ⟨.invalidParams, SurveyFault.zeroThreshold.message⟩
  | .storage fault => ofStore fault

def nodeKind : NodeFault → FaultKind
  | .refused _ => .rejected
  | .unknownName _ _ => .invalidAddress
  | .duplicateName _ _ => .invalidParams
  | .amount _ => .invalidParams
  | .insufficientFunds _ _ => .insufficientFunds
  | .wallet (.insufficientFunds _) => .insufficientFunds
  | .wallet _ => .wallet
  | .timeout _ => .wallet
  | .store _ => .database
  | .schema _ => .database
  | .chain _ => .database
  | .unhealthy _ => .internal
  | .payload _ => .internal

/-- A wallet that lacks funds tells only its reason. -/
def ofNode (f : NodeFault) : Fault :=
  match f with
  | .wallet (.insufficientFunds reason) => ⟨.insufficientFunds, reason⟩
  | f => ⟨nodeKind f, f.message⟩

end Fault

end CivicLedger.Gateway
