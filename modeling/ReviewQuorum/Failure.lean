/-! # Failures of collaborators

A call to the forge or to the census may fail. A transient failure may pass by itself, so that the
call is worth another attempt; a permanent one will not. A call may also abort, for want of an
instant at which something could have happened; it then takes with it whoever has made it. -/

namespace ReviewQuorum

/-- A failed call. -/
inductive Failure
  | reported (transient : Bool) (operation reason : String)
  | aborted
deriving DecidableEq

namespace Failure

/-- Whether another attempt is worth while. -/
def transient : Failure → Bool
  | reported transient _ _ => transient
  | aborted => false

/-- What a failure says. -/
def message : Failure → String
  | reported transient operation reason =>
    operation ++ (if transient then ": transient failure: " else ": ") ++ reason
  | aborted => "`DateTime + TimeDelta` overflowed"

end Failure

/-- The calls that a pass makes to its collaborators. -/
inductive Operation
  | changeRequest
  | comments
  | reviews
  | postComment
  | setLabel
  | roleOf
deriving DecidableEq

namespace Operation

/-- The name of an operation. -/
def name : Operation → String
  | changeRequest => "forge.change_request"
  | comments => "forge.comments"
  | reviews => "forge.reviews"
  | postComment => "forge.post_comment"
  | setLabel => "forge.set_label"
  | roleOf => "census.role_of"

/-- The operations. -/
def all : List Operation := [changeRequest, comments, reviews, postComment, setLabel, roleOf]

/-- The operation of a name. -/
def ofName? (s : String) : Option Operation := all.find? fun o => o.name == s

/-- The failure of a call about a change request that the forge does not know. -/
def notFound (o : Operation) (id : String) : Failure :=
  .reported false o.name ("change request " ++ id ++ " not found")

end Operation

end ReviewQuorum
