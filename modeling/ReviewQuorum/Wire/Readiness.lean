import ReviewQuorum.Gate
import ReviewQuorum.Wire.Ledger

/-! # The wire form of reviews, readiness and the gate -/

namespace ReviewQuorum

namespace Verdict

/-- The name of a verdict. -/
def name : Verdict → String
  | approved => "approved"
  | disapproved => "disapproved"
  | pending => "pending"

/-- The verdict of a name. -/
def ofName? (s : String) : Option Verdict :=
  [approved, disapproved, pending].find? fun v => v.name == s

end Verdict

instance : Wire Verdict where
  encode v := .str v.name
  decode? v := Wire.word? v >>= Verdict.ofName?

instance : Wire Review where
  encode r := .obj
    [("reviewer", .str r.reviewer), ("verdict", Wire.encode r.verdict),
      ("submitted_at", Wire.encode r.moment.timestamp), ("sequence", Wire.ofNat r.moment.sequence)]
  decode? := Wire.Record.run? do
    let reviewer ← Wire.Record.required "reviewer" Wire.string?
    let verdict ← Wire.Record.required "verdict" Wire.decode?
    let timestamp ← Wire.Record.required "submitted_at" Wire.decode?
    let sequence ← Wire.Record.withDefault "sequence" 0 (Wire.nat? 64)
    pure ⟨reviewer, verdict, ⟨timestamp, sequence⟩⟩

instance : Wire Approval where
  encode a := .obj [("reviewer", .str a.reviewer), ("role", Wire.ofOption Wire.encode a.role)]
  decode? := Wire.Record.run? do
    let reviewer ← Wire.Record.required "reviewer" Wire.string?
    let role ← Wire.Record.nullable "role" Wire.decode?
    pure ⟨reviewer, role⟩

instance : Wire Tally where
  encode t := .obj
    [("total", Wire.ofNat t.total), ("by_role", Wire.ofRoleMap Wire.ofNat t.byRole),
      ("approvals", .arr (t.approvals.map Wire.encode))]
  decode? := Wire.Record.run? do
    let total ← Wire.Record.required "total" (Wire.nat? 32)
    let byRole ← Wire.Record.required "by_role" (Wire.roleMap? (Wire.nat? 32))
    let approvals ← Wire.Record.required "approvals" (Wire.list? Wire.decode?)
    pure ⟨total, byRole, approvals⟩

namespace Requirement

/-- The members of a requirement. -/
def members (q : Requirement) : List (String × Json) :=
  [("required", Wire.ofNat q.required), ("actual", Wire.ofNat q.actual)]

/-- Reads the members of a requirement. -/
def record : Wire.Record Requirement := do
  let required ← Wire.Record.required "required" (Wire.nat? 32)
  let actual ← Wire.Record.required "actual" (Wire.nat? 32)
  pure ⟨required, actual⟩

end Requirement

instance : Wire Requirement where
  encode q := .obj q.members
  decode? := Requirement.record.run?

instance : Wire RoleShortfall where
  encode s := .obj (("role", Wire.encode s.role) :: s.requirement.members)
  decode? := Wire.Record.runFlat? do
    let role ← Wire.Record.required "role" Wire.decode?
    let requirement ← Requirement.record
    pure ⟨role, requirement⟩

instance : Wire Explanation where
  encode e := .obj
    ([("policy", Wire.encode e.policy), ("policy_digest", .str e.policyDigest),
      ("total", Wire.encode e.total)] ++
      if e.unmetRoles.isEmpty then [] else [("unmet_roles", .arr (e.unmetRoles.map Wire.encode))])
  decode? := Wire.Record.run? do
    let policy ← Wire.Record.required "policy" Wire.decode?
    let policyDigest ← Wire.Record.required "policy_digest" Wire.string?
    let total ← Wire.Record.required "total" Wire.decode?
    let unmetRoles ← Wire.Record.withDefault "unmet_roles" [] (Wire.list? Wire.decode?)
    pure ⟨policy, policyDigest, total, unmetRoles⟩

instance : Wire Readiness where
  encode r := .obj [("ready", .bool r.ready), ("explanation", Wire.encode r.explanation)]
  decode? := Wire.Record.run? do
    let ready ← Wire.Record.required "ready" Wire.bool?
    let explanation ← Wire.Record.required "explanation" Wire.decode?
    pure ⟨ready, explanation⟩

instance : Wire GateAction where
  encode a := .str a.name
  decode? v := Wire.word? v >>= GateAction.ofName?

namespace BlockReason

/-- The members of a block reason. -/
def members : BlockReason → List (String × Json)
  | notEvaluated => [("reason", .str "not_evaluated")]
  | unready e => [("reason", .str "unready"), ("explanation", Wire.encode e)]

/-- Reads what a block reason's tag calls for. -/
def ofTag? (rest : Json) : String → Option BlockReason
  | "not_evaluated" => (Wire.nothing? rest).map fun _ => notEvaluated
  | "unready" => Wire.Record.run? (unready <$> Wire.Record.required "explanation" Wire.decode?) rest
  | _ => none

/-- The block reason that a JSON value stands for. -/
def ofJson? (v : Json) : Option BlockReason := do
  let (tag, rest) ← Wire.tagged? "reason" v
  let tag ← Wire.string? tag
  ofTag? rest tag

/-- The tag that a number in its place counts off. -/
def tagAt? : Json → Option String
  | .str s => some s
  | .int 0 => some "not_evaluated"
  | .int 1 => some "unready"
  | _ => none

/-- The block reason in a gate decision, where its tag may also be a number. -/
def ofMembers? (v : Json) : Option BlockReason := do
  let (tag, rest) ← Wire.tagged? "reason" v
  let tag ← tagAt? tag
  ofTag? rest tag

end BlockReason

instance : Wire BlockReason := ⟨fun r => .obj r.members, BlockReason.ofJson?⟩

namespace GateDecision

/-- A gate decision as JSON. -/
def toJson : GateDecision → Json
  | allowed => .obj [("gate", .str "allowed")]
  | blocked reason => .obj (("gate", .str "blocked") :: reason.members)

/-- Reads what a gate decision's tag calls for. -/
def ofTag? (rest : Json) : String → Option GateDecision
  | "allowed" => (Wire.nothing? rest).map fun _ => allowed
  | "blocked" => (BlockReason.ofMembers? rest).map blocked
  | _ => none

/-- The gate decision that a JSON value stands for. -/
def ofJson? (v : Json) : Option GateDecision := do
  let (tag, rest) ← Wire.tagged? "gate" v
  let tag ← Wire.string? tag
  ofTag? rest tag

end GateDecision

instance : Wire GateDecision := ⟨GateDecision.toJson, GateDecision.ofJson?⟩

end ReviewQuorum
