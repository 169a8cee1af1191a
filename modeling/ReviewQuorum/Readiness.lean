import ReviewQuorum.Policy.Digest
import ReviewQuorum.Review

/-! # Readiness

A change request is ready if its tally reaches the total of its policy and the minimum of every
role. `Readiness` says so and names what is short. -/

namespace ReviewQuorum

/-- How many approvals are needed and how many there are. -/
structure Requirement where
  required : Nat
  actual : Nat
deriving DecidableEq

/-- Whether there are as many approvals as are needed. -/
def Requirement.isMet (q : Requirement) : Bool := q.required ≤ q.actual

/-- The approvals that are short. -/
def Requirement.shortfall (q : Requirement) : Nat := q.required - q.actual

/-- The approvals of a role that are needed and those that there are. -/
structure RoleShortfall where
  role : Role
  requirement : Requirement
deriving DecidableEq

/-- What was needed and what was short; only roles that are short are listed, lowest first. -/
structure Explanation where
  policy : Policy
  policyDigest : String
  total : Requirement
  unmetRoles : List RoleShortfall
deriving DecidableEq

/-- Whether a change request is ready, and why. -/
structure Readiness where
  ready : Bool
  explanation : Explanation
deriving DecidableEq

namespace Readiness

/-- The requirement that belongs to the minimum of a role. -/
def roleRequirement (tally : Tally) (e : Role × Nat) : RoleShortfall :=
  ⟨e.1, ⟨e.2, tally.approvalsOf e.1⟩⟩

/-- The roles whose minimum is not reached, lowest first. -/
def unmetRoles (policy : Policy) (tally : Tally) : List RoleShortfall :=
  (policy.minimums.toList.map (roleRequirement tally)).filter fun s => !s.requirement.isMet

/-- Compares a tally with a policy. -/
def evaluate (policy : Policy) (tally : Tally) : Readiness :=
  let total : Requirement := ⟨policy.total, tally.total⟩
  let unmet := unmetRoles policy tally
  ⟨total.isMet && unmet.isEmpty, ⟨policy, policy.digest, total, unmet⟩⟩

end Readiness

/-- The tally of reviews for the roles that a policy asks for. -/
def Policy.tally (p : Policy) (reviews : List Review) (roleOf : Account → Option Role) : Tally :=
  Tally.ofReviews reviews p.minimums.keys roleOf

/-- The readiness of a change request with these reviews under a policy. -/
def Policy.readiness (p : Policy) (reviews : List Review) (roleOf : Account → Option Role) :
    Readiness :=
  .evaluate p (p.tally reviews roleOf)

end ReviewQuorum
