import ReviewQuorum.Role

/-! # Requests and the outcomes of reading a command

A command asks for a number of reviewers, with a role or without. Reading one has five outcomes:
help was asked for, the arguments are no number and role, the number is out of bounds, the role is
unknown, or a request. All of them are values that get an answer. -/

namespace ReviewQuorum

/-- The word that begins a command. -/
def trigger : String := "/reviewers"

/-- The largest number of reviewers that can be asked for. -/
def maxReviewers : Nat := 10

/-- The end of the range that a number of reviewers has overrun. -/
inductive Bound
  | upper
  | lower
deriving DecidableEq

/-- The last number that a bound allows. -/
def Bound.limit : Bound → Nat
  | .upper => maxReviewers
  | .lower => 0

/-- A number of reviewers that is asked for, of a role or of any. -/
structure Request where
  count : Nat
  role : Option Role := none
deriving DecidableEq

/-- What reading a command gives. -/
inductive Outcome
  | helpRequested
  | malformed (arguments : String)
  | outOfRange (requested : Int) (bound : Bound) (role : Role)
  | unknownRole (token : String)
  | parsed (request : Request)
deriving DecidableEq

/-- The request, if reading gave one. -/
def Outcome.request? : Outcome → Option Request
  | .parsed request => some request
  | _ => none

end ReviewQuorum
