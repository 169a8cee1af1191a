import ReviewQuorum.Reply
import ReviewQuorum.Settings

/-! # Plans

A pass over a change request first gathers `Facts`. What it has to do then follows from the facts
and from the `Context` that earlier passes have left: the `Plan` has the ledger, the replies that
are still owed, the tally and readiness, and the change of the ready label.

A reply is owed to an invocation whose key no marker of the bot holds; one in a comment must also be
newer than the watermark, the largest sequence number of the comments that completed passes have
seen. -/

namespace ReviewQuorum

/-- What is remembered of a change request between passes. -/
structure Context where
  watermark : Option Nat := none
  readiness : Option Readiness := none
  observedReady : Option Bool := none
  passes : Nat := 0
deriving DecidableEq, Inhabited

/-- What a pass has gathered. -/
structure Facts where
  change : ChangeRequest
  comments : List Comment
  reviews : List Review
  roles : RoleTable

/-- What a pass has found out and what it has to do. -/
structure Plan where
  ledger : Ledger
  replies : List (String × String)
  tally : Tally
  readiness : Readiness
  labelChange : Option Bool
  watermark : Option Nat
deriving DecidableEq

/-- What a completed pass reports. -/
structure Report where
  changeRequest : String
  pass : Nat
  policy : Policy
  rulings : List Ruling
  tally : Tally
  readiness : Readiness
  replies : List String
  labelChange : Option Bool
  watermark : Option Nat
deriving DecidableEq

/-- The accounts whose roles matter: the author, those behind commands and the reviewers. -/
def accountsInvolved (change : ChangeRequest) (commands : List Command) (reviews : List Review) :
    List Account :=
  (NameSet.ofNames
    (change.author :: commands.map (·.actor) ++ reviews.map (·.reviewer))).toNames

namespace Plan

/-- Whether a reply is owed. -/
def isOwed (watermark : Option Nat) (answered : List String) (i : Invocation) : Bool :=
  !answered.contains i.source.key &&
    match i.source with
    | .description => true
    | .comment _ => watermark.all (· < i.moment.sequence)

/-- The larger one of two watermarks. -/
def laterWatermark : Option Nat → Option Nat → Option Nat
  | none, w => w
  | some n, none => some n
  | some n, some m => some (max n m)

/-- The plan for facts and for what is remembered. -/
def make (settings : Settings) (context : Context) (facts : Facts) : Plan :=
  let invocations := Invocation.extract facts.change facts.comments settings.botAccount
  let ledger := Ledger.replay .default (Invocation.commands invocations) facts.change.author
    facts.roles.roleOf
  let answered := Marker.answeredKeys facts.comments settings.botAccount
  let owed := invocations.filter (isOwed context.watermark answered)
  let tally := ledger.policy.tally facts.reviews facts.roles.roleOf
  let readiness := Readiness.evaluate ledger.policy tally
  let shown := facts.change.hasLabel settings.readyLabel
  { ledger := ledger
    replies := Reply.renderAll owed ledger
    tally := tally
    readiness := readiness
    labelChange := if shown != readiness.ready then some readiness.ready else none
    watermark := laterWatermark (Comment.lastSequence? facts.comments) context.watermark }

/-- What is remembered once the plan has been carried out. -/
def nextContext (p : Plan) (context : Context) : Context :=
  { watermark := p.watermark
    readiness := some p.readiness
    observedReady := some p.readiness.ready
    passes := context.passes + 1 }

/-- The report of a plan that has been carried out. -/
def report (p : Plan) (id : String) (context : Context) : Report :=
  { changeRequest := id
    pass := context.passes + 1
    policy := p.ledger.policy
    rulings := p.ledger.rulings
    tally := p.tally
    readiness := p.readiness
    replies := p.replies.map (·.1)
    labelChange := p.labelChange
    watermark := p.watermark }

end Plan

end ReviewQuorum
