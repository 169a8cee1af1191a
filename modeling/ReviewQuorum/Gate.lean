import ReviewQuorum.Readiness

/-! # The gate

Integrating and sponsoring a change request ask the gate first. It opens for a change request that
is ready and stays closed for one that is not, or whose readiness nobody has evaluated. -/

namespace ReviewQuorum

/-- What asks the gate. -/
inductive GateAction
  | integrate
  | sponsor
deriving DecidableEq

namespace GateAction

/-- The name of an action. -/
def name : GateAction → String
  | integrate => "integrate"
  | sponsor => "sponsor"

/-- The actions. -/
def all : List GateAction := [integrate, sponsor]

/-- The action of a name. -/
def ofName? (s : String) : Option GateAction := all.find? fun a => a.name == s

end GateAction

/-- Why the gate stays closed. -/
inductive BlockReason
  | notEvaluated
  | unready (explanation : Explanation)
deriving DecidableEq

/-- The answer of the gate. -/
inductive GateDecision
  | allowed
  | blocked (reason : BlockReason)
deriving DecidableEq

namespace GateDecision

/-- Whether the gate opens. -/
def isAllowed : GateDecision → Bool
  | allowed => true
  | blocked _ => false

/-- The answer for a readiness, or for none. -/
def ofReadiness? : Option Readiness → GateDecision
  | none => blocked .notEvaluated
  | some r => if r.ready then allowed else blocked (.unready r.explanation)

end GateDecision

end ReviewQuorum
