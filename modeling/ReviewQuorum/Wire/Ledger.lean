import ReviewQuorum.Ledger
import ReviewQuorum.Wire.Command

/-! # The wire form of policies and rulings -/

namespace ReviewQuorum

instance : Wire Policy where
  encode p := .obj (("required_total", Wire.ofNat p.total) ::
    if p.hasMinimums then [("per_role_minimum", Wire.ofRoleMap Wire.ofNat p.minimums)] else [])
  decode? := Wire.Record.run? do
    let total ← Wire.Record.required "required_total" (Wire.nat? 8)
    let minimums ← Wire.Record.withDefault "per_role_minimum" {} (Wire.roleMap? (Wire.nat? 8))
    pure ⟨total, minimums⟩

namespace Transition

/-- The name of a transition. -/
def name : Transition → String
  | unchanged => "unchanged"
  | raises => "raises"
  | lowers => "lowers"

/-- The transition of a name. -/
def ofName? (s : String) : Option Transition :=
  [unchanged, raises, lowers].find? fun t => t.name == s

end Transition

instance : Wire Transition where
  encode t := .str t.name
  decode? v := Wire.word? v >>= Transition.ofName?

namespace Denial

/-- The name of a denial. -/
def name : Denial → String
  | notPermitted => "not-permitted"
  | decreaseNotPermitted => "decrease-not-permitted"
  | authorCannotDecrease => "author-cannot-decrease"

/-- The denial of a name. -/
def ofName? (s : String) : Option Denial :=
  [notPermitted, decreaseNotPermitted, authorCannotDecrease].find? fun d => d.name == s

end Denial

instance : Wire Denial where
  encode d := .str d.name
  decode? v := Wire.word? v >>= Denial.ofName?

namespace Decision

/-- A decision as JSON. -/
def toJson : Decision → Json
  | applied changed => .obj [("decision", .str "applied"), ("changed", .bool changed)]
  | denied reason => .obj [("decision", .str "denied"), ("reason", Wire.encode reason)]

/-- Reads what a decision's tag calls for. -/
def ofTag? (rest : Json) : String → Option Decision
  | "applied" => Wire.Record.run? (applied <$> Wire.Record.required "changed" Wire.bool?) rest
  | "denied" => Wire.Record.run? (denied <$> Wire.Record.required "reason" Wire.decode?) rest
  | _ => none

/-- The decision that a JSON value stands for. -/
def ofJson? (v : Json) : Option Decision := do
  let (tag, rest) ← Wire.tagged? "decision" v
  let tag ← Wire.string? tag
  ofTag? rest tag

end Decision

instance : Wire Decision := ⟨Decision.toJson, Decision.ofJson?⟩

instance : Wire Ruling where
  encode r := .obj
    [("source", Wire.encode r.source), ("actor", .str r.actor), ("request", Wire.encode r.request),
      ("before", Wire.encode r.before), ("after", Wire.encode r.after),
      ("decision", Wire.encode r.decision)]
  decode? := Wire.Record.run? do
    let source ← Wire.Record.required "source" Wire.decode?
    let actor ← Wire.Record.required "actor" Wire.string?
    let request ← Wire.Record.required "request" Wire.decode?
    let before ← Wire.Record.required "before" Wire.decode?
    let after ← Wire.Record.required "after" Wire.decode?
    let decision ← Wire.Record.required "decision" Wire.decode?
    pure ⟨source, actor, request, before, after, decision⟩

end ReviewQuorum
