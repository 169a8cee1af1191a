import ReviewQuorum.World

/-! # Reconcilers

A reconciler runs passes. A pass takes the next ticket of its change request and starts from what is
remembered of it; what a completed pass leaves is remembered, and a pass that fails or is superseded
leaves the memory as it was. The gate is answered from a pass of its own; one that is superseded is
tried again, three times in all. -/

namespace ReviewQuorum

/-- The settings of a reconciler and how it retries calls. -/
structure Reconciler where
  settings : Settings
  retry : Retry

/-- The result of a pass without failure. -/
inductive PassResult
  | completed (report : Report)
  | superseded (ticket : Nat)

/-- Why a pass or a question to the gate has no result. -/
inductive ReconcilerError
  | call (failure : Failure)
  | gateSuperseded (id : String) (attempts : Nat)
deriving DecidableEq

namespace ReconcilerError

/-- What an error says. -/
def message : ReconcilerError → String
  | call failure => failure.message
  | gateSuperseded id attempts =>
    "gate check for change request " ++ id ++ " was superseded " ++ Decimal.ofNat attempts ++
      " times in a row"

/-- Whether another attempt is worth while. -/
def isTransient : ReconcilerError → Bool
  | call failure => failure.transient
  | gateSuperseded _ _ => true

end ReconcilerError

/-- The answer to who asks the gate. -/
inductive GateAnswer
  | allowed
  | blocked (reason : BlockReason) (message : String)
deriving DecidableEq

namespace GateAnswer

/-- Whether the gate opens. -/
def isAllowed : GateAnswer → Bool
  | allowed => true
  | blocked _ _ => false

/-- The answer to an action, from the decision of the gate. -/
def ofDecision (action : GateAction) : GateDecision → GateAnswer
  | .allowed => allowed
  | .blocked reason => blocked reason (reason.message action)

end GateAnswer

namespace Reconciler

/-- The reconciler for settings. -/
def ofSettings (settings : Settings) : Reconciler := ⟨settings, settings.retry⟩

/-- The program of a pass for which `context` is remembered. -/
def program (r : Reconciler) (context : Context) : Inquiry (Except Failure PassEnd) :=
  (Pass.program r.settings r.retry context).run

/-- Closes a pass: remembers what it leaves and reports on it. -/
def close (id : String) (place ticket : Nat) (result : Except Failure PassEnd) (w : World) :
    Except Failure PassResult × World :=
  match result with
  | .error f => (.error f, w)
  | .ok .superseded => (.ok (.superseded ticket), w)
  | .ok (.completed plan) =>
    let context := (w.memory.slotAt place).context
    (.ok (.completed (plan.report id context)),
      { w with memory := w.memory.remember place (plan.nextContext context) })

/-- Runs a pass over a change request. -/
def runPass (r : Reconciler) (id : String) (w : World) : Except Failure PassResult × World :=
  let (place, memory) := w.memory.locate id
  let (ticket, memory) := memory.takeTicket place
  let (result, w) := (r.program (memory.slotAt place).context).run (World.answer id place ticket)
    { w with memory := memory }
  close id place ticket result w

/-- How often the gate is asked to run a pass. -/
def maxGateAttempts : Nat := 3

/-- Asks the gate, with so many attempts left. -/
def checkGateWithin (r : Reconciler) (id : String) (action : GateAction) :
    Nat → World → Except ReconcilerError GateAnswer × World
  | 0, w => (.error (.gateSuperseded id maxGateAttempts), w)
  | left + 1, w =>
    match r.runPass id w with
    | (.error f, w) => (.error (.call f), w)
    | (.ok (.superseded _), w) => r.checkGateWithin id action left w
    | (.ok (.completed report), w) =>
      (.ok (.ofDecision action (.ofReadiness? (some report.readiness))), w)

/-- Asks the gate on behalf of an action. -/
def checkGate (r : Reconciler) (id : String) (action : GateAction) (w : World) :
    Except ReconcilerError GateAnswer × World :=
  r.checkGateWithin id action maxGateAttempts w

end Reconciler

end ReviewQuorum
