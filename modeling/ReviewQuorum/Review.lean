import ReviewQuorum.Moment
import ReviewQuorum.RoleMap

/-! # Reviews and their tally

Of the reviews of an account only the latest counts, by moment, and among those of one moment the
last in the list. The accounts whose latest review approves are the approvals. They are counted for
the total and for each role that is asked for: an account counts for a role if its standing
satisfies it, and for the total if it holds `authors` or higher, or no role that is known. Counters
have 32 bits. -/

namespace ReviewQuorum

/-- What a reviewer says. -/
inductive Verdict
  | approved
  | disapproved
  | pending
deriving DecidableEq

/-- A review. -/
structure Review where
  reviewer : Account
  verdict : Verdict
  moment : Moment
deriving DecidableEq

/-- An account whose latest review approves, with its role. -/
structure Approval where
  reviewer : Account
  role : Option Role
deriving DecidableEq

/-- The approvals and how many count for what. -/
structure Tally where
  total : Nat
  byRole : RoleMap Nat
  approvals : List Approval
deriving DecidableEq

namespace Review

/-- Puts a review in the place of the one its reviewer gave before, unless that is later. -/
def keepLatest (latest : Dict Review) (r : Review) : Dict Review :=
  match latest.get? r.reviewer with
  | none => latest.insert r.reviewer r
  | some old => if r.moment.lt old.moment then latest else latest.insert r.reviewer r

/-- The latest review of each reviewer. -/
def latest (reviews : List Review) : Dict Review := reviews.foldl keepLatest Dict.empty

end Review

namespace Approval

/-- Whether an approval counts for the total. -/
def countsForTotal (a : Approval) : Bool := (a.role.getD .default).satisfies .default

/-- Whether an approval counts for a role. -/
def countsFor (required : Role) (a : Approval) : Bool :=
  match a.role with
  | none => false
  | some role => role.satisfies required

/-- The accounts whose latest review approves, in order. -/
def ofReviews (reviews : List Review) (roleOf : Account → Option Role) : List Approval :=
  (((Review.latest reviews).values.filter fun r => r.verdict == .approved)).map fun r =>
    ⟨r.reviewer, roleOf r.reviewer⟩

end Approval

namespace Tally

/-- The tally of no approvals. -/
def zero : Tally := ⟨0, {}, []⟩

instance : Inhabited Tally := ⟨zero⟩

/-- A counter of 32 bits after `n` steps from zero. -/
def word (n : Nat) : Nat := n % UInt32.size

theorem word_le (n : Nat) : word n ≤ n := Nat.mod_le _ _

theorem word_of_lt {n : Nat} (h : n < UInt32.size) : word n = n := Nat.mod_eq_of_lt h

/-- The approvals of a role. -/
def approvalsOf (t : Tally) (r : Role) : Nat := (t.byRole.get? r).getD 0

/-- Counts approvals for the total and for the roles that are asked for. -/
def ofApprovals (approvals : List Approval) (roles : List Role) : Tally where
  total := word (approvals.countP Approval.countsForTotal)
  byRole := RoleMap.ofList (roles.map fun r => (r, word (approvals.countP (Approval.countsFor r))))
  approvals := approvals

/-- Counts the approvals among reviews. -/
def ofReviews (reviews : List Review) (roles : List Role) (roleOf : Account → Option Role) :
    Tally :=
  ofApprovals (Approval.ofReviews reviews roleOf) roles

end Tally

end ReviewQuorum
