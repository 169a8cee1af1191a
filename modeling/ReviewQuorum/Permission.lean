import ReviewQuorum.Policy

/-! # Who may change a policy

The author of a change request and accounts of standing `committers` or higher may change what it
needs. Whoever may change it may raise it. Lowering is for accounts of standing `reviewers` or
higher, and never for the author, whatever standing the author has. -/

namespace ReviewQuorum

/-- Why a command is refused. -/
inductive Denial
  | notPermitted
  | decreaseNotPermitted
  | authorCannotDecrease
deriving DecidableEq

/-- Whether a command may be carried out. -/
inductive Permission
  | allowed
  | denied (reason : Denial)
deriving DecidableEq

/-- Whether the answer is yes. -/
def Permission.isAllowed : Permission → Bool
  | .allowed => true
  | .denied _ => false

/-- The account that makes a request, as the rules see it. -/
structure Actor where
  account : Account
  role : Option Role
  isAuthor : Bool
deriving DecidableEq

namespace Actor

/-- The lowest standing that may change what somebody else's change request needs. -/
def executeRole : Role := .committers

/-- The lowest standing that may lower what a change request needs. -/
def decreaseRole : Role := .reviewers

/-- Whether the account holds a role or a higher one. -/
def hasStanding (a : Actor) (required : Role) : Bool :=
  match a.role with
  | none => false
  | some role => role.satisfies required

/-- Whether the account may change what the change request needs. -/
def mayExecute (a : Actor) : Bool := a.isAuthor || a.hasStanding executeRole

/-- Whether the account may change the policy from one to another. -/
def permission (a : Actor) (current next : Policy) : Permission :=
  if !a.mayExecute then .denied .notPermitted
  else if current.transitionTo next ≠ .lowers then .allowed
  else if a.isAuthor then .denied .authorCannotDecrease
  else if !a.hasStanding decreaseRole then .denied .decreaseNotPermitted
  else .allowed

/-- Whether the account may have a request carried out. -/
def permissionFor (a : Actor) (current : Policy) (request : Request) : Permission :=
  a.permission current (current.apply request)

end Actor

end ReviewQuorum
