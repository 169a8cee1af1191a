import ReviewQuorum.ChangeRequest
import ReviewQuorum.Wire.Readiness

/-! # The wire form of snapshots and role tables

A snapshot has the members of its change request beside its comments and reviews. -/

namespace ReviewQuorum

instance : Wire RoleTable where
  encode t := .obj [("roles", Wire.ofDict Wire.encode t.roles)]
  decode? := Wire.Record.run? do
    let roles ← Wire.Record.required "roles" (Wire.dict? Wire.decode?)
    pure ⟨roles⟩

namespace ChangeRequest

/-- The members of a change request. -/
def members (c : ChangeRequest) : List (String × Json) :=
  [("id", .str c.id), ("author", .str c.author), ("description", .str c.description),
    ("created_at", Wire.encode c.createdAt), ("labels", Wire.ofNames c.labels)]

/-- Reads the members of a change request. -/
def record : Wire.Record ChangeRequest := do
  let id ← Wire.Record.required "id" Wire.string?
  let author ← Wire.Record.required "author" Wire.string?
  let description ← Wire.Record.withDefault "description" "" Wire.string?
  let createdAt ← Wire.Record.required "created_at" Wire.decode?
  let labels ← Wire.Record.withDefault "labels" Dict.empty Wire.names?
  pure ⟨id, author, description, createdAt, labels⟩

end ChangeRequest

instance : Wire ChangeRequest where
  encode c := .obj c.members
  decode? := ChangeRequest.record.run?

instance : Wire Comment where
  encode c := .obj
    [("id", .str c.id), ("author", .str c.author), ("body", .str c.body),
      ("created_at", Wire.encode c.moment.timestamp), ("sequence", Wire.ofNat c.moment.sequence)]
  decode? := Wire.Record.run? do
    let id ← Wire.Record.required "id" Wire.string?
    let author ← Wire.Record.required "author" Wire.string?
    let body ← Wire.Record.required "body" Wire.string?
    let timestamp ← Wire.Record.required "created_at" Wire.decode?
    let sequence ← Wire.Record.required "sequence" (Wire.nat? 64)
    pure ⟨id, author, body, ⟨timestamp, sequence⟩⟩

instance : Wire Snapshot where
  encode s := .obj (s.change.members ++
    [("comments", .arr (s.comments.map Wire.encode)),
      ("reviews", .arr (s.reviews.map Wire.encode))])
  decode? := Wire.Record.runFlat? do
    let change ← ChangeRequest.record
    let comments ← Wire.Record.withDefault "comments" [] (Wire.list? Wire.decode?)
    let reviews ← Wire.Record.withDefault "reviews" [] (Wire.list? Wire.decode?)
    pure ⟨change, comments, reviews⟩

end ReviewQuorum
