import ReviewQuorum.ChangeRequest
import ReviewQuorum.Command
import ReviewQuorum.Grammar

/-! # Invocations

The description of a change request and each of its comments may hold a command, its first line that
is one. An `Invocation` is such a line with the outcome of reading it. The description's comes first
and belongs to the author; those of comments follow in the order of their moments, and the comments
of one account, the bot, are passed over. -/

namespace ReviewQuorum

/-- A command line that was found, with the outcome of reading it. -/
structure Invocation where
  source : Source
  actor : Account
  rawText : String
  outcome : Outcome
  moment : Moment
deriving DecidableEq

namespace Invocation

/-- The first line of a text that is a command, without the blanks around it, and its outcome. -/
def firstLine? (text : String) : Option (String × Outcome) :=
  (Text.lines text.toList).findSome? fun line =>
    (Outcome.ofChars? line).map fun outcome => (String.ofList (Text.trim line), outcome)

/-- The command of an invocation, if reading it gave a request. -/
def command? (i : Invocation) : Option Command :=
  i.outcome.request?.map fun request => ⟨i.actor, request, i.rawText, i.source, i.moment⟩

/-- The commands of invocations. -/
def commands (is : List Invocation) : List Command := is.filterMap command?

/-- The invocation in the description. -/
def ofDescription? (change : ChangeRequest) : Option Invocation :=
  (firstLine? change.description).map fun (line, outcome) =>
    ⟨.description, change.author, line, outcome, ⟨change.createdAt, 0⟩⟩

/-- The invocation in a comment. -/
def ofComment? (c : Comment) : Option Invocation :=
  (firstLine? c.body).map fun (line, outcome) =>
    ⟨.comment c.id, c.author, line, outcome, c.moment⟩

/-- The invocations of a change request. -/
def extract (change : ChangeRequest) (comments : List Comment) (bot : Account) : List Invocation :=
  (ofDescription? change).toList ++
    (Comment.inOrder (comments.filter fun c => c.author != bot)).filterMap ofComment?

end Invocation

end ReviewQuorum
