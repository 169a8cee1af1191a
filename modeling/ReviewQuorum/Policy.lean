import ReviewQuorum.Request
import ReviewQuorum.RoleMap
import ReviewQuorum.Text.Decimal

/-! # Review policies

A policy says how many approvals a change request needs, in all and of single roles.
`Policy.ofParts` makes one from its parts and keeps to the range; `Policy.apply` gives the policy
after a request. A policy that was read from a file may be any value of the type;
`Policy.WellFormed` says which ones obey the range.

`Policy.transitionTo` tells a step that lowers the total or the minimum of a role from one that does
not, whatever else it raises. -/

namespace ReviewQuorum

/-- The approvals that a change request needs. -/
structure Policy where
  total : Nat
  minimums : RoleMap Nat := {}
deriving DecidableEq

/-- Why parts make no policy. -/
inductive PolicyError
  | totalOutOfRange (actual : Int)
  | roleExceedsTotal (role : Role) (minimum total : Nat)
deriving DecidableEq

/-- What an error says. -/
def PolicyError.message : PolicyError → String
  | totalOutOfRange actual =>
    "required total must be in range [0, " ++ Decimal.ofNat maxReviewers ++ "] (got " ++
      Decimal.ofInt actual ++ ")"
  | roleExceedsTotal role minimum total =>
    "minimum for role " ++ role.name ++ " (" ++ Decimal.ofNat minimum ++
      ") exceeds required total (" ++ Decimal.ofNat total ++ ")"

/-- How a policy compares with the one before it. -/
inductive Transition
  | unchanged
  | raises
  | lowers
deriving DecidableEq

namespace Policy

/-- The policy of a change request without commands: one approval. -/
def default : Policy := { total := 1 }

instance : Inhabited Policy := ⟨default⟩

/-- The approvals of a role that a policy asks for. -/
def minimumFor (p : Policy) (r : Role) : Nat := (p.minimums.get? r).getD 0

/-- Whether a policy asks for the approvals of some role. -/
def hasMinimums (p : Policy) : Bool := !p.minimums.isEmpty

/-- The policies that keep to the range: the total is at most ten, and every minimum is at least one
and at most the total. -/
structure WellFormed (p : Policy) : Prop where
  total_le : p.total ≤ maxReviewers
  minimum_pos : ∀ r m, p.minimums.get? r = some m → 0 < m
  minimum_le : ∀ r m, p.minimums.get? r = some m → m ≤ p.total

/-- Adds a minimum; a minimum of zero is none. -/
def addMinimum (total : Nat) (m : RoleMap Nat) (e : Role × Nat) :
    Except PolicyError (RoleMap Nat) :=
  if total < e.2 then .error (.roleExceedsTotal e.1 e.2 total)
  else if e.2 = 0 then .ok m
  else .ok (m.insert e.1 e.2)

/-- The policy with a total and minimums, where a later minimum of a role replaces an earlier one.
-/
def ofParts (total : Int) (minimums : List (Role × Nat)) : Except PolicyError Policy :=
  if total < 0 ∨ (maxReviewers : Int) < total then .error (.totalOutOfRange total)
  else
    (minimums.foldlM (addMinimum total.toNat) RoleMap.empty).map fun m => ⟨total.toNat, m⟩

/-- The minimums after a request: none if it names no role. Otherwise its role gets its count, no
other minimum stays above it, and a minimum of zero is dropped. -/
def minimumsAfter (m : RoleMap Nat) (q : Request) : RoleMap Nat :=
  match q.role with
  | none => RoleMap.empty
  | some r => ((m.map (min · q.count)).insert r q.count).filter (0 < ·)

/-- The policy after a request. -/
def apply (p : Policy) (q : Request) : Policy := ⟨q.count, minimumsAfter p.minimums q⟩

/-- Whether the step from `p` to `q` lowers the total or the minimum of a role. -/
def Lowers (p q : Policy) : Prop :=
  q.total < p.total ∨ ∃ r, q.minimumFor r < p.minimumFor r

/-- The roles whose minimum is lower in `q` than in `p`. -/
def loweredRoles (p q : Policy) : List Role :=
  Role.all.filter fun r => q.minimumFor r < p.minimumFor r

theorem lowers_iff {p q : Policy} :
    p.Lowers q ↔ q.total < p.total ∨ (p.loweredRoles q).isEmpty = false := by
  have h : (p.loweredRoles q).isEmpty = false ↔ ∃ r, q.minimumFor r < p.minimumFor r := by
    rw [Bool.eq_false_iff]
    simp [loweredRoles, List.filter_eq_nil_iff, Role.mem_all]
  rw [Lowers, h]

instance (p q : Policy) : Decidable (p.Lowers q) := decidable_of_iff' _ lowers_iff

/-- Classifies the step from one policy to the next. -/
def transitionTo (p q : Policy) : Transition :=
  if p.Lowers q then .lowers else if p = q then .unchanged else .raises

end Policy

end ReviewQuorum
