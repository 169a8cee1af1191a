import ReviewQuorum.Proofs.PolicyShape

/-! # Permission for a request

The rules on permission compare the policy before a command with the one after it. Where the
minimums of a policy are at least one and at most its total, the comparison can be read off the
request (`Policy.lowers_apply_iff`): it lowers something iff it `AsksForLess`, that is, iff its
count is below the total, or it names no role where the policy has a minimum. What else a request
does to minimums, by bringing them down to its count or by replacing one, lowers nothing once its
count is at least the total, since no minimum is above that.

So the answer to a request depends on whether it asks for less, on whether its actor is the author,
and on the actor's standing (`request_permission`). -/

namespace ReviewQuorum

/-- **A request asks for less** than a policy: its count is below the total, or it names no role and
so gives up a minimum that the policy has. -/
def Request.AsksForLess (q : Request) (p : Policy) : Prop :=
  q.count < p.total ∨ (q.role = none ∧ p.hasMinimums = true)

instance (q : Request) (p : Policy) : Decidable (q.AsksForLess p) :=
  inferInstanceAs (Decidable (_ ∨ _))

namespace Policy

variable {p : Policy} {q : Request}

theorem hasMinimums_iff : p.hasMinimums = true ↔ ∃ r m, p.minimums.get? r = some m := by
  rw [← Bool.not_eq_false, hasMinimums_eq_false, not_forall]
  exact exists_congr fun r => Option.ne_none_iff_exists'

/-- A request without a role lowers the total, or takes a minimum away. -/
theorem lowers_apply_of_no_role (hpos : p.Positive) (hrole : q.role = none) :
    p.Lowers (p.apply q) ↔ q.count < p.total ∨ p.hasMinimums = true := by
  have hgone : (∃ r, (p.apply q).minimumFor r < p.minimumFor r) ↔ p.hasMinimums = true := by
    rw [hasMinimums_iff]
    refine exists_congr fun r => ?_
    rw [minimumFor_apply, hrole, minimumFor]
    cases hm : p.minimums.get? r with
    | none => simp
    | some m =>
      have hone : 0 < m := hpos r m hm
      simpa using hone
  rw [Lowers, hgone]
  exact Iff.rfl

/-- **A request with a role lowers the total or nothing**: no minimum above its count is left to be
brought down. -/
theorem lowers_apply_of_role {r : Role} (hle : ∀ s, p.minimumFor s ≤ p.total)
    (hrole : q.role = some r) : p.Lowers (p.apply q) ↔ q.count < p.total := by
  refine or_iff_left_of_imp ?_
  rintro ⟨s, hs⟩
  change q.count < p.total
  have := hle s
  rw [minimumFor_apply, hrole] at hs
  simp only at hs
  split_ifs at hs <;> omega

theorem minimumFor_le_total (hle : ∀ r m, p.minimums.get? r = some m → m ≤ p.total) (r : Role) :
    p.minimumFor r ≤ p.total := by
  rw [minimumFor]
  cases hm : p.minimums.get? r with
  | none => exact Nat.zero_le _
  | some m => exact hle r m hm

/-- **What a request lowers**, told without the policy after it. -/
theorem lowers_apply_iff (hp : ∀ r m, p.minimums.get? r = some m → 1 ≤ m ∧ m ≤ p.total)
    (q : Request) : p.Lowers (p.apply q) ↔ q.AsksForLess p := by
  rw [Request.AsksForLess]
  cases hrole : q.role with
  | none =>
    rw [lowers_apply_of_no_role (fun r m hm => (hp r m hm).1) hrole]
    simp
  | some r =>
    rw [lowers_apply_of_role (minimumFor_le_total fun s m hm => (hp s m hm).2) hrole]
    simp

end Policy

/-- **Permission by the request.** Where the minimums of a policy are at least one and at most its
total, outsiders are not permitted to make a request. Everybody else may make one that does not ask
for less. One that does is refused to the author whatever the author's standing, and to others below
`reviewers`. A request that names a role and a count of at least the total lowers nothing. -/
theorem request_permission (a : Actor) {p : Policy}
    (hp : ∀ r m, p.minimums.get? r = some m → 1 ≤ m ∧ m ≤ p.total) (q : Request) :
    (a.permissionFor p q = .denied .notPermitted ↔ a.IsOutsider) ∧
    (a.permissionFor p q = .denied .authorCannotDecrease ↔
      a.isAuthor = true ∧ q.AsksForLess p) ∧
    (a.permissionFor p q = .denied .decreaseNotPermitted ↔ ¬ a.IsOutsider ∧ a.isAuthor = false ∧
      (∀ role ∈ a.role, role < .reviewers) ∧ q.AsksForLess p) ∧
    (a.permissionFor p q = .allowed ↔ ¬ a.IsOutsider ∧
      (q.AsksForLess p → a.isAuthor = false ∧ ∃ role ∈ a.role, .reviewers ≤ role)) ∧
    (p.transitionTo (p.apply q) = .lowers ↔ q.AsksForLess p) ∧
    (∀ r, q.role = some r → p.total ≤ q.count → p.transitionTo (p.apply q) ≠ .lowers) := by
  have hlowers : p.transitionTo (p.apply q) = .lowers ↔ q.AsksForLess p :=
    Policy.transitionTo_eq_lowers.trans (Policy.lowers_apply_iff hp q)
  rw [Actor.permissionFor, ← Policy.lowers_apply_iff hp q]
  refine ⟨Actor.permission_eq_notPermitted, Actor.permission_eq_authorCannotDecrease,
    Actor.permission_eq_decreaseNotPermitted, Actor.permission_eq_allowed,
    Policy.transitionTo_eq_lowers, fun r hrole hcount hlow => ?_⟩
  rcases hlowers.mp hlow with hless | ⟨hnone, -⟩
  · exact absurd hless (Nat.not_lt.mpr hcount)
  · simp [hrole] at hnone

/-- A committer asks for three of anybody where three committers and two leads are asked for, and is
refused: the count is what it was, but the minimums would be given up. -/
theorem request_permission_committer :
    let p : Policy := ⟨3, { committers := some 3, lead := some 2 }⟩
    let a : Actor := ⟨"com", some .committers, false⟩
    (∀ r m, p.minimums.get? r = some m → 1 ≤ m ∧ m ≤ p.total) ∧
    (⟨3, none⟩ : Request).AsksForLess p ∧
    a.permissionFor p ⟨3, none⟩ = .denied .decreaseNotPermitted := by
  intro p a
  have hp : ∀ r m, p.minimums.get? r = some m → 1 ≤ m ∧ m ≤ p.total := by
    rintro r m hm
    cases r <;> cases hm <;> decide
  have hless : (⟨3, none⟩ : Request).AsksForLess p := by decide
  obtain ⟨-, -, hrefused, -⟩ := request_permission a hp ⟨3, none⟩
  refine ⟨hp, hless, hrefused.mpr ⟨?_, rfl, ?_, hless⟩⟩
  · rw [← Actor.mayExecute_iff]
    decide
  · rw [← Actor.hasStanding_eq_false_iff]
    decide

-- A minimum above the total would be brought down by a request that raises the total.
example : (⟨1, { lead := some 5 }⟩ : Policy).transitionTo
    (Policy.apply ⟨1, { lead := some 5 }⟩ ⟨2, some .reviewers⟩) = .lowers := by decide

end ReviewQuorum
