import Mathlib.Order.Basic
import Mathlib.Tactic.Lift
import Mathlib.Tactic.SplitIfs
import ReviewQuorum.Permission

/-! # The order of policies

A policy asks for at most as much as another one if neither its total nor the minimum of any role is
larger. Steps that lower nothing are exactly the steps up in this order (`transitionTo_ne_lowers`).

The order forgets minimums of zero, so it is a preorder only. Policies that store none of them
(`Policy.Positive`) are partially ordered, and on them the steps that raise are the steps strictly
up (`steps_up_partialOrder`).

There is one condition for each answer of the rules on permission, by what the actor is and by
whether the step lowers something. Accounts that cannot lower a policy only get steps up
(`Actor.le_of_allowed`). -/

namespace ReviewQuorum

namespace Policy

instance : LE Policy := ⟨fun p q => p.total ≤ q.total ∧ ∀ r, p.minimumFor r ≤ q.minimumFor r⟩

theorem le_iff {p q : Policy} : p ≤ q ↔ p.total ≤ q.total ∧ ∀ r, p.minimumFor r ≤ q.minimumFor r :=
  Iff.rfl

instance : Preorder Policy where
  le_refl p := ⟨Nat.le_refl _, fun _ => Nat.le_refl _⟩
  le_trans _ _ _ h h' := ⟨Nat.le_trans h.1 h'.1, fun r => Nat.le_trans (h.2 r) (h'.2 r)⟩

theorem not_lowers_iff {p q : Policy} : ¬ p.Lowers q ↔ p ≤ q := by
  simp only [Lowers, le_iff, not_or, not_exists, Nat.not_lt]

theorem transitionTo_eq_lowers {p q : Policy} : p.transitionTo q = .lowers ↔ p.Lowers q := by
  unfold transitionTo
  split_ifs with hl he <;> simp [hl]

/-- **A step lowers nothing iff it goes up.** -/
theorem transitionTo_ne_lowers {p q : Policy} : p.transitionTo q ≠ .lowers ↔ p ≤ q := by
  rw [Ne, transitionTo_eq_lowers, not_lowers_iff]

theorem transitionTo_eq_unchanged {p q : Policy} : p.transitionTo q = .unchanged ↔ p = q := by
  unfold transitionTo
  split_ifs with hl he
  · have hne : p ≠ q := by
      rintro rfl
      exact not_lowers_iff.mpr (le_refl p) hl
    simp [hne]
  · simp [he]
  · simp [he]

theorem transitionTo_eq_raises {p q : Policy} : p.transitionTo q = .raises ↔ p ≤ q ∧ p ≠ q := by
  rw [← not_lowers_iff]
  unfold transitionTo
  split_ifs with hl he <;> simp [*]

end Policy

/-! ### Policies that store no minimum of zero -/

namespace Policy

/-- Every minimum that a policy stores is at least one. -/
def Positive (p : Policy) : Prop := ∀ r m, p.minimums.get? r = some m → 1 ≤ m

theorem positive_iff {p : Policy} : p.Positive ↔ ∀ r, p.minimums.get? r ≠ some 0 := by
  constructor
  · intro h r hr
    exact absurd (h r 0 hr) (Nat.not_succ_le_zero 0)
  · rintro h r m hm
    exact Nat.one_le_iff_ne_zero.mpr fun hzero => h r (hzero ▸ hm)

/-- Policies are equal if they ask for the same and store no minimum of zero. -/
theorem ext_minimumFor {p p' : Policy} (hp : p.Positive) (hp' : p'.Positive)
    (htotal : p.total = p'.total) (hminimum : ∀ r, p.minimumFor r = p'.minimumFor r) : p = p' := by
  have hminimums : p.minimums = p'.minimums := by
    refine RoleMap.ext_get? fun r => ?_
    have hr := hminimum r
    have h := positive_iff.mp hp r
    have h' := positive_iff.mp hp' r
    simp only [minimumFor] at hr
    cases hm : p.minimums.get? r <;> cases hm' : p'.minimums.get? r <;> simp_all
  obtain ⟨total, minimums⟩ := p
  obtain ⟨total', minimums'⟩ := p'
  rw [Policy.mk.injEq]
  exact ⟨htotal, hminimums⟩

end Policy

/-- **The policies that store no minimum of zero.** -/
abbrev PositivePolicy := {p : Policy // p.Positive}

namespace PositivePolicy

variable {p q : PositivePolicy}

instance : PartialOrder PositivePolicy where
  le_antisymm p q hpq hqp :=
    Subtype.ext (Policy.ext_minimumFor p.2 q.2 (Nat.le_antisymm hpq.1 hqp.1)
      fun r => Nat.le_antisymm (hpq.2 r) (hqp.2 r))

theorem transitionTo_ne_lowers : p.1.transitionTo q.1 ≠ .lowers ↔ p ≤ q :=
  Policy.transitionTo_ne_lowers

theorem transitionTo_eq_lowers : p.1.transitionTo q.1 = .lowers ↔ ¬ p ≤ q := by
  rw [← transitionTo_ne_lowers, not_not]

/-- **A step raises iff it goes strictly up.** -/
theorem transitionTo_eq_raises : p.1.transitionTo q.1 = .raises ↔ p < q := by
  rw [Policy.transitionTo_eq_raises, lt_iff_le_and_ne, Ne, Ne, Subtype.ext_iff, Subtype.coe_le_coe]

end PositivePolicy

/-- **Steps that lower nothing are a partial order** on the policies that store no minimum of zero.
A step that leaves everything as it is leads to the same policy, and only there. Steps that lower
nothing compose, to one that raises if one of them does; a step back from one that raises lowers;
and only between equal policies does neither step lower anything. -/
theorem steps_up_partialOrder {p q s : Policy} (hp : p.Positive) (hq : q.Positive)
    (hs : s.Positive) :
    p.transitionTo p = .unchanged ∧
    (p.transitionTo q = .unchanged → p = q) ∧
    (p.transitionTo q ≠ .lowers → q.transitionTo s ≠ .lowers →
      p.transitionTo s ≠ .lowers ∧
        (p.transitionTo q = .raises ∨ q.transitionTo s = .raises → p.transitionTo s = .raises)) ∧
    (p.transitionTo q = .raises → q.transitionTo p = .lowers) ∧
    (p.transitionTo q ≠ .lowers → q.transitionTo p ≠ .lowers → p = q) := by
  lift p to PositivePolicy using hp
  lift q to PositivePolicy using hq
  lift s to PositivePolicy using hs
  simp only [PositivePolicy.transitionTo_ne_lowers, PositivePolicy.transitionTo_eq_lowers,
    PositivePolicy.transitionTo_eq_raises]
  refine ⟨Policy.transitionTo_eq_unchanged.mpr rfl, Policy.transitionTo_eq_unchanged.mp,
    fun hpq hqs => ⟨le_trans hpq hqs, ?_⟩, not_le_of_gt,
    fun hpq hqp => congrArg Subtype.val (le_antisymm hpq hqp)⟩
  rintro (hlt | hlt)
  · exact lt_of_lt_of_le hlt hqs
  · exact lt_of_le_of_lt hpq hlt

/-- From one approval to two committers, and on to a lead among them. -/
theorem steps_up_fromDefault :
    let two : Policy := ⟨2, { committers := some 2 }⟩
    let lead : Policy := ⟨2, { committers := some 2, lead := some 1 }⟩
    (Policy.default.Positive ∧ two.Positive ∧ lead.Positive) ∧
    (Policy.default.transitionTo two = .raises ∧ two.transitionTo lead ≠ .lowers) ∧
    Policy.default.transitionTo lead = .raises ∧ two.transitionTo Policy.default = .lowers := by
  intro two lead
  have hdefault : Policy.default.Positive := by
    rintro r m hm
    cases r <;> cases hm
  have htwo : two.Positive := by
    rintro r m hm
    cases r <;> cases hm
    decide
  have hlead : lead.Positive := by
    rintro r m hm
    cases r <;> cases hm <;> decide
  have hraises : Policy.default.transitionTo two = .raises := by decide
  have hkeeps : two.transitionTo lead ≠ .lowers := by decide
  obtain ⟨-, -, hcomp, hback, -⟩ := steps_up_partialOrder hdefault htwo hlead
  have hup : Policy.default.transitionTo two ≠ .lowers := by decide
  exact ⟨⟨hdefault, htwo, hlead⟩, ⟨hraises, hkeeps⟩, (hcomp hup hkeeps).2 (.inl hraises),
    hback hraises⟩

-- With a minimum of zero there are two policies each of which raises the other.
example : (⟨1, {}⟩ : Policy).transitionTo ⟨1, { lead := some 0 }⟩ = .raises ∧
    (⟨1, { lead := some 0 }⟩ : Policy).transitionTo ⟨1, {}⟩ = .raises := by decide

/-! ### Who may change a policy -/

namespace Actor

variable {a : Actor} {p p' : Policy}

/-- **An outsider** is not the author and has no standing, or one below `committers`. -/
def IsOutsider (a : Actor) : Prop := a.isAuthor = false ∧ ∀ role ∈ a.role, role < .committers

theorem hasStanding_iff {required : Role} :
    a.hasStanding required = true ↔ ∃ role ∈ a.role, required ≤ role := by
  rw [hasStanding]
  cases a.role <;> simp [Role.satisfies_iff]

theorem hasStanding_eq_false_iff {required : Role} :
    a.hasStanding required = false ↔ ∀ role ∈ a.role, role < required := by
  rw [← Bool.not_eq_true, hasStanding_iff]
  simp only [not_exists, not_and, Role.le_def, Role.lt_def, Nat.not_le]

theorem mayExecute_eq_false_iff : a.mayExecute = false ↔ a.IsOutsider := by
  rw [mayExecute, Bool.or_eq_false_iff, executeRole, hasStanding_eq_false_iff, IsOutsider]

theorem mayExecute_iff : a.mayExecute = true ↔ ¬ a.IsOutsider := by
  rw [← mayExecute_eq_false_iff, Bool.not_eq_false]

/-- Only outsiders may change nothing at all. -/
theorem permission_eq_notPermitted :
    a.permission p p' = .denied .notPermitted ↔ a.IsOutsider := by
  rw [← mayExecute_eq_false_iff, permission]
  split_ifs with h <;> simp_all

/-- The author is kept from lowering anything, and nothing else. -/
theorem permission_eq_authorCannotDecrease :
    a.permission p p' = .denied .authorCannotDecrease ↔ a.isAuthor = true ∧ p.Lowers p' := by
  rw [← Policy.transitionTo_eq_lowers, permission, mayExecute]
  split_ifs <;> simp_all

/-- So are others who may change something but have no standing `reviewers`. -/
theorem permission_eq_decreaseNotPermitted :
    a.permission p p' = .denied .decreaseNotPermitted ↔
      ¬ a.IsOutsider ∧ a.isAuthor = false ∧ (∀ role ∈ a.role, role < .reviewers) ∧ p.Lowers p' := by
  rw [← mayExecute_iff, ← hasStanding_eq_false_iff, ← Policy.transitionTo_eq_lowers, permission,
    decreaseRole]
  split_ifs <;> simp_all

theorem permission_eq_allowed :
    a.permission p p' = .allowed ↔ ¬ a.IsOutsider ∧
      (p.Lowers p' → a.isAuthor = false ∧ ∃ role ∈ a.role, .reviewers ≤ role) := by
  rw [← mayExecute_iff, ← hasStanding_iff, ← Policy.transitionTo_eq_lowers, permission,
    decreaseRole]
  split_ifs <;> simp_all

/-- **What is allowed to somebody who cannot lower a policy lowers nothing.** -/
theorem le_of_allowed (h : a.permission p p' = .allowed)
    (hno : a.isAuthor = true ∨ ∀ r, a.role = some r → r < .reviewers) : p ≤ p' := by
  refine Policy.not_lowers_iff.mp fun hlow => ?_
  obtain ⟨hother, hstands⟩ := (permission_eq_allowed.mp h).2 hlow
  rcases hno with hauthor | hbelow
  · rw [hother] at hauthor
    cases hauthor
  · rw [← hasStanding_iff, hasStanding_eq_false_iff.mpr hbelow] at hstands
    cases hstands

end Actor

/-- The accounts that the rules keep from lowering a policy: the author of the change request, and
those that are unknown or of a standing below `reviewers`. -/
def CannotLower (author : Account) (roleOf : Account → Option Role) (a : Account) : Prop :=
  a = author ∨ ∀ r, roleOf a = some r → r < .reviewers

instance (author : Account) (roleOf : Account → Option Role) (a : Account) :
    Decidable (CannotLower author roleOf a) :=
  match h : roleOf a with
  | none => .isTrue (.inr fun r hr => by simp [h] at hr)
  | some r => decidable_of_iff (a = author ∨ r < .reviewers) (by simp [CannotLower, h])

end ReviewQuorum
