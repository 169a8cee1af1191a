import ReviewQuorum.Command
import ReviewQuorum.Wire

/-! # The wire form of commands

Roles, requests, the outcomes of reading, sources and commands. -/

namespace ReviewQuorum

instance : Wire Role where
  encode r := .str r.name
  decode? v := Wire.word? v >>= Role.ofName?

/-- The name of a bound. -/
def Bound.name : Bound → String
  | .upper => "upper"
  | .lower => "lower"

/-- The bound of a name. -/
def Bound.ofName? (s : String) : Option Bound :=
  [Bound.upper, Bound.lower].find? fun b => b.name == s

instance : Wire Bound where
  encode b := .str b.name
  decode? v := Wire.word? v >>= Bound.ofName?

namespace Request

/-- The members of a request. -/
def members (q : Request) : List (String × Json) :=
  ("count", Wire.ofNat q.count) ::
    match q.role with
    | none => []
    | some r => [("role", Wire.encode r)]

/-- Reads the members of a request. -/
def record : Wire.Record Request := do
  let count ← Wire.Record.required "count" (Wire.nat? 8)
  let role ← Wire.Record.withDefault "role" none (Wire.option? Wire.decode?)
  pure ⟨count, role⟩

end Request

instance : Wire Request where
  encode q := .obj q.members
  decode? := Request.record.run?

namespace Outcome

/-- Reads what an outcome's tag calls for. -/
def ofTag? (rest : Json) : String → Option Outcome
  | "help_requested" => (Wire.nothing? rest).map fun _ => helpRequested
  | "malformed" =>
    Wire.Record.run? (malformed <$> Wire.Record.required "arguments" Wire.string?) rest
  | "out_of_range" =>
    Wire.Record.run?
      (do
        let requested ← Wire.Record.required "requested" Wire.int64?
        let bound ← Wire.Record.required "bound" Wire.decode?
        let role ← Wire.Record.required "role" Wire.decode?
        pure (outOfRange requested bound role))
      rest
  | "unknown_role" =>
    Wire.Record.run? (unknownRole <$> Wire.Record.required "token" Wire.string?) rest
  | "parsed" => (Request.record.run? rest).map parsed
  | _ => none

/-- An outcome as JSON. -/
def toJson : Outcome → Json
  | helpRequested => .obj [("outcome", .str "help_requested")]
  | malformed arguments => .obj [("outcome", .str "malformed"), ("arguments", .str arguments)]
  | outOfRange requested bound role =>
    .obj [("outcome", .str "out_of_range"), ("requested", .int requested),
      ("bound", Wire.encode bound), ("role", Wire.encode role)]
  | unknownRole token => .obj [("outcome", .str "unknown_role"), ("token", .str token)]
  | parsed request => .obj (("outcome", .str "parsed") :: request.members)

/-- The outcome that a JSON value stands for. -/
def ofJson? (v : Json) : Option Outcome := do
  let (tag, rest) ← Wire.tagged? "outcome" v
  let tag ← Wire.string? tag
  ofTag? rest tag

end Outcome

instance : Wire Outcome := ⟨Outcome.toJson, Outcome.ofJson?⟩

namespace Source

/-- A source as JSON. -/
def toJson : Source → Json
  | description => .obj [("kind", .str "description")]
  | comment id => .obj [("kind", .str "comment"), ("id", .str id)]

/-- Reads what a source's tag calls for. -/
def ofTag? (rest : Json) : String → Option Source
  | "description" => (Wire.nothing? rest).map fun _ => description
  | "comment" => Wire.Record.run? (comment <$> Wire.Record.required "id" Wire.string?) rest
  | _ => none

/-- The source that a JSON value stands for. -/
def ofJson? (v : Json) : Option Source := do
  let (tag, rest) ← Wire.tagged? "kind" v
  let tag ← Wire.string? tag
  ofTag? rest tag

end Source

instance : Wire Source := ⟨Source.toJson, Source.ofJson?⟩

instance : Wire Command where
  encode c := .obj
    [("actor", .str c.actor), ("request", Wire.encode c.request), ("raw_text", .str c.rawText),
      ("source", Wire.encode c.source), ("timestamp", Wire.encode c.moment.timestamp),
      ("sequence", Wire.ofNat c.moment.sequence)]
  decode? := Wire.Record.run? do
    let actor ← Wire.Record.required "actor" Wire.string?
    let request ← Wire.Record.required "request" Wire.decode?
    let rawText ← Wire.Record.required "raw_text" Wire.string?
    let source ← Wire.Record.required "source" Wire.decode?
    let timestamp ← Wire.Record.required "timestamp" Wire.decode?
    let sequence ← Wire.Record.required "sequence" (Wire.nat? 64)
    pure ⟨actor, request, rawText, source, ⟨timestamp, sequence⟩⟩

end ReviewQuorum
