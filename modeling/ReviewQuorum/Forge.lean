import ReviewQuorum.ChangeRequest
import ReviewQuorum.Text.Decimal

/-! # The forge

A `Forge` holds change requests by their identifier. Comments and reviews are added at the end, with
the next sequence number and an instant one second after the latest activity; the identifier of a
new comment is `c` and its sequence number. If there is no such instant any more, nothing can be
added. The forge counts how often a label was written. -/

namespace ReviewQuorum

namespace Snapshot

/-- The comment that an account writes at an instant. -/
def commentAt (s : Snapshot) (t : Timestamp) (author : Account) (body : String) : Comment :=
  ⟨"c" ++ Decimal.ofNat s.nextSequence, author, body, ⟨t, s.nextSequence⟩⟩

/-- The comment that an account writes next, if it can write one. -/
def nextComment? (s : Snapshot) (author : Account) (body : String) : Option Comment :=
  s.nextTimestamp?.map fun t => s.commentAt t author body

/-- The snapshot with one more comment. -/
def addComment (s : Snapshot) (c : Comment) : Snapshot := { s with comments := s.comments ++ [c] }

/-- The snapshot after an account has tried to write a comment. -/
def comment (s : Snapshot) (author : Account) (body : String) : Snapshot :=
  (s.nextComment? author body).elim s s.addComment

/-- The review that an account gives next, if it can give one. -/
def nextReview? (s : Snapshot) (reviewer : Account) (verdict : Verdict) : Option Review :=
  s.nextTimestamp?.map fun t => ⟨reviewer, verdict, ⟨t, s.reviews.length + 1⟩⟩

/-- The snapshot with one more review. -/
def addReview (s : Snapshot) (r : Review) : Snapshot := { s with reviews := s.reviews ++ [r] }

/-- The snapshot after an account has tried to give a review. -/
def review (s : Snapshot) (reviewer : Account) (verdict : Verdict) : Snapshot :=
  (s.nextReview? reviewer verdict).elim s s.addReview

/-- The snapshot with another description. -/
def describe (s : Snapshot) (description : String) : Snapshot :=
  { s with change := { s.change with description := description } }

/-- The snapshot with a label or without it. -/
def setLabel (s : Snapshot) (label : String) (present : Bool) : Snapshot :=
  let labels :=
    if present then NameSet.add s.change.labels label else Dict.erase s.change.labels label
  { s with change := { s.change with labels := labels } }

end Snapshot

/-- Change requests, the account that posts replies, and how often a label was written. -/
structure Forge where
  bot : Account
  changes : Dict Snapshot
  labelWrites : Nat
deriving DecidableEq

namespace Forge

/-- The forge without change requests. -/
def empty (bot : Account) : Forge := ⟨bot, Dict.empty, 0⟩

/-- The change request of an identifier. -/
def snapshot? (f : Forge) (id : String) : Option Snapshot := f.changes.get? id

/-- Stores a change request, instead of the one with its identifier. -/
def insert (f : Forge) (s : Snapshot) : Forge :=
  { f with changes := f.changes.insert s.change.id s }

/-- Stores a change request under an identifier. -/
def put (f : Forge) (id : String) (s : Snapshot) : Forge :=
  { f with changes := f.changes.insert id s }

/-- Changes a change request, if the forge knows it. -/
def modify (f : Forge) (id : String) (g : Snapshot → Snapshot) : Forge :=
  match f.snapshot? id with
  | none => f
  | some s => f.put id (g s)

/-- The comments of the account that posts replies. -/
def botComments (f : Forge) (id : String) : List Comment :=
  match f.snapshot? id with
  | none => []
  | some s => s.comments.filter fun c => c.author == f.bot

/-- The text of the last comment. -/
def lastBody? (f : Forge) (id : String) : Option String :=
  (f.snapshot? id).bind fun s => (Comment.last? s.comments).map (·.body)

/-- What is said of a change request that is not there. -/
def notFoundMessage (id : String) : String := "change request not found: " ++ id

end Forge

end ReviewQuorum
