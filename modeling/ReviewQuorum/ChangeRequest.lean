import ReviewQuorum.Review

/-! # Change requests

A change request has an author, a description and labels. A `Snapshot` is a change request with all
its comments and reviews, in the order in which a forge lists them. -/

namespace ReviewQuorum

/-- A change request on its own. -/
structure ChangeRequest where
  id : String
  author : Account
  description : String
  createdAt : Timestamp
  labels : NameSet
deriving DecidableEq

/-- Whether a change request carries a label. -/
def ChangeRequest.hasLabel (c : ChangeRequest) (label : String) : Bool :=
  Dict.contains c.labels label

/-- A comment on a change request. -/
structure Comment where
  id : String
  author : Account
  body : String
  moment : Moment
deriving DecidableEq

/-- A change request with its comments and reviews. -/
structure Snapshot where
  change : ChangeRequest
  comments : List Comment
  reviews : List Review
deriving DecidableEq

namespace Comment

/-- Comments in the order of their moments. Comments that tie keep their order. -/
def inOrder (cs : List Comment) : List Comment := cs.mergeSort fun a b => a.moment.le b.moment

/-- The comment with the last moment, and of several the last in the list. -/
def last? (cs : List Comment) : Option Comment := (inOrder cs).getLast?

/-- The largest sequence number of comments. -/
def lastSequence? (cs : List Comment) : Option Nat := (cs.map fun c => c.moment.sequence).max?

end Comment

namespace Snapshot

/-- The instant of the latest activity: creation, comment or review. -/
def lastActivity (s : Snapshot) : Timestamp :=
  (s.comments.map (·.moment.timestamp) ++ s.reviews.map (·.moment.timestamp)).foldl
    Timestamp.max s.change.createdAt

/-- The instant of the next activity, one second after the latest. There is none after the last
second of the clock. -/
def nextTimestamp? (s : Snapshot) : Option Timestamp := s.lastActivity.nextSecond?

/-- The sequence number of the next comment, one more than the largest. Behind the last number of 64
bits comes zero. -/
def nextSequence (s : Snapshot) : Nat :=
  ((Comment.lastSequence? s.comments).getD 0 + 1) % UInt64.size

end Snapshot

end ReviewQuorum
