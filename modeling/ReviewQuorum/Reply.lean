import ReviewQuorum.Gate
import ReviewQuorum.Invocation
import ReviewQuorum.Ledger
import ReviewQuorum.Marker

/-! # The wording of replies

Every invocation gets one reply: a mention of its account, the message for its outcome and, where a
command was carried out or refused, for the ruling on it, and the marker of its source. The gate has
a message of its own that lists what is short. -/

namespace ReviewQuorum

namespace Reply

/-- The names of the roles, highest first. -/
def roleNames : String := String.intercalate ", " (Role.all.map Role.name)

/-- How a command is used. -/
def help : String :=
  "Usage: `/reviewers <n> [<role>]` where `<n>` is the number of required reviewers and " ++
  "`<role>` is an optional role (one of " ++ roleNames ++ "). `<n>` must be between " ++
  Decimal.ofNat Bound.lower.limit ++ " and " ++ Decimal.ofNat Bound.upper.limit ++ "."

/-- The sentence about the minimum of a role. -/
def minimumSentence (e : Role × Nat) : String :=
  " At least " ++ Decimal.ofNat e.2 ++ " of them must have the role " ++ e.1.name ++ "."

/-- What a policy asks for. The highest role is named first. -/
def success (p : Policy) : String :=
  if !p.hasMinimums && 1 < p.total then
    "The number of required reviews for this PR is now set to " ++ Decimal.ofNat p.total ++
      " (with at least 1 of role reviewers)."
  else
    "The number of required reviews for this PR is now set to " ++ Decimal.ofNat p.total ++ "." ++
      String.join (p.minimums.toList.reverse.map minimumSentence)

/-- Why a command was refused. -/
def denial : Denial → String
  | .notPermitted =>
    "Only committers and the author of this PR may change the number of required reviewers."
  | .authorCannotDecrease =>
    "Cannot decrease the number of required reviewers: the author of a PR may only raise " ++
      "the requirement. Ask a reviewer or the lead to lower it."
  | .decreaseNotPermitted =>
    "Cannot decrease the number of required reviewers: only reviewers and the lead may " ++
      "lower the requirement."

/-- The message for the ruling on a request, or for a request that was not ruled on. -/
def ruled : Option Ruling → String
  | none => help
  | some r =>
    match r.decision with
    | .applied _ => success r.after
    | .denied reason => denial reason

/-- The message for an outcome and, if it is a request, for the ruling on it. -/
def message : Outcome → Option Ruling → String
  | .helpRequested, _ => help
  | .malformed arguments, _ =>
    "Could not parse `" ++ arguments ++ "` as a number of reviewers.\n\n" ++ help
  | .outOfRange requested .upper _, _ =>
    "Cannot increase the required number of reviewers above " ++ Decimal.ofNat Bound.upper.limit ++
      " (requested: " ++ Decimal.ofInt requested ++ ")"
  | .outOfRange _ .lower role, _ =>
    "Number of required reviewers of role " ++ role.name ++ " cannot be decreased below " ++
      Decimal.ofNat Bound.lower.limit
  | .unknownRole token, _ =>
    "Unknown role `" ++ token ++ "` specified. Valid roles are " ++ roleNames ++ "."
  | .parsed _, ruling => ruled ruling

/-- The reply to an invocation. -/
def render (i : Invocation) (ruling : Option Ruling) : String :=
  "@" ++ i.actor ++ " " ++ message i.outcome ruling ++ "\n" ++ Marker.ofSource i.source

/-- The replies to invocations, each with the key of its source. -/
def renderAll (invocations : List Invocation) (ledger : Ledger) : List (String × String) :=
  invocations.map fun i => (i.source.key, render i (ledger.rulingFor? i.source))

end Reply

namespace BlockReason

/-- The line about the total. -/
def totalLine (q : Requirement) : String :=
  "- " ++ Decimal.ofNat q.actual ++ " of " ++ Decimal.ofNat q.required ++ " required approvals"

/-- The line about the minimum of a role. -/
def roleLine (s : RoleShortfall) : String := totalLine s.requirement ++ " of role " ++ s.role.name

/-- The lines that say what is short. -/
def lines : BlockReason → List String
  | notEvaluated => ["- review requirements have not been evaluated yet"]
  | unready e => (if e.total.isMet then [] else [totalLine e.total]) ++ e.unmetRoles.map roleLine

/-- What an action that was not let through is told first. -/
def headline : GateAction → String
  | .integrate => "Your pull request has not yet been marked as ready for integration."
  | .sponsor => "This PR has not yet been marked as ready for integration."

/-- What an action that was not let through is told. -/
def message (action : GateAction) (reason : BlockReason) : String :=
  if reason.lines.isEmpty then headline action
  else headline action ++ "\n\n" ++ String.intercalate "\n" reason.lines

end BlockReason

end ReviewQuorum
