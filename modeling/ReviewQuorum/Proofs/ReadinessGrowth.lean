import Mathlib.Logic.Relation
import ReviewQuorum.Proofs.GateAnswer

/-! # What does not take readiness away

Readiness is judged from a policy, the reviews and the census (`Case`). Four kinds of steps favour
it: an account approves, an account gets a higher role, an account that was unknown gets one that
counts, and the policy asks for no more than before (`Case.Favours`).

A case is at least as good as another one if its policy asks for no more, whoever approves there
approves here, and every account counts for whatever it counts for there. Every favourable step
leads to a case that is at least as good, so any number of them does (`Case.atLeast_of_favours`),
and what is ready stays ready, as long as no counter overflows (`ready_of_favours`). -/

namespace ReviewQuorum

/-! ### Roles -/

namespace Role

/-- **An account with the role `new` counts for whatever it counts for with `old`**: for the total,
and for each role. Without a role it counts for the total alone. -/
structure Covers (old new : Option Role) : Prop where
  total : (∀ role ∈ old, authors ≤ role) → ∀ role ∈ new, authors ≤ role
  minimum : ∀ r, (∃ role ∈ old, r ≤ role) → ∃ role ∈ new, r ≤ role

theorem Covers.refl (role : Option Role) : Covers role role := ⟨fun h => h, fun _ h => h⟩

theorem Covers.trans {a b c : Option Role} (h : Covers a b) (h' : Covers b c) : Covers a c :=
  ⟨fun ha => h'.total (h.total ha), fun r ha => h'.minimum r (h.minimum r ha)⟩

theorem covers_of_le {old new : Role} (h : old ≤ new) : Covers (some old) (some new) := by
  constructor
  · rintro hold role ⟨⟩
    exact Nat.le_trans (hold old rfl) h
  · rintro r ⟨role, ⟨⟩, hr⟩
    exact ⟨new, rfl, Nat.le_trans hr h⟩

theorem covers_of_authors {role : Role} (h : authors ≤ role) : Covers none (some role) := by
  constructor
  · rintro - new ⟨⟩
    exact h
  · rintro r ⟨old, ⟨⟩, -⟩

end Role

/-- A role that is given to one account covers its old one. -/
theorem RoleTable.covers_insert (t : RoleTable) {a : Account} {role : Role}
    (h : Role.Covers (t.roleOf a) (some role)) (b : Account) :
    Role.Covers (t.roleOf b) ((t.insert a role).roleOf b) := by
  rw [roleOf_insert]
  split_ifs with hab
  · exact hab ▸ h
  · exact .refl _

/-! ### Cases -/

/-- What readiness is judged from. -/
structure Case where
  policy : Policy
  reviews : List Review
  census : RoleTable

namespace Case

/-- Whether a change request is ready. -/
def ready (c : Case) : Bool := (c.policy.readiness c.reviews c.census.roleOf).ready

/-- **Steps that favour readiness.** -/
inductive Favours (c : Case) : Case → Prop
  | approve (r : Review) (hverdict : r.verdict = .approved)
    (hlatest : ∀ r' ∈ c.reviews, r'.reviewer = r.reviewer → r'.moment.le r.moment = true) :
    Favours c { c with reviews := c.reviews ++ [r] }
  | promote (a : Account) {old new : Role} (hold : c.census.roleOf a = some old) (h : old ≤ new) :
    Favours c { c with census := c.census.insert a new }
  | enrol (a : Account) {role : Role} (hunknown : c.census.roleOf a = none)
    (h : .authors ≤ role) : Favours c { c with census := c.census.insert a role }
  | ease (p : Policy) (h : p.transitionTo c.policy ≠ .lowers) : Favours c { c with policy := p }

/-- **A case that is at least as good.** -/
structure AtLeast (c d : Case) : Prop where
  policy : d.policy ≤ c.policy
  approvers : approvers c.reviews ⊆ approvers d.reviews
  roles : ∀ a, Role.Covers (c.census.roleOf a) (d.census.roleOf a)

variable {c d e : Case}

theorem AtLeast.refl (c : Case) : c.AtLeast c := ⟨le_refl _, Finset.Subset.refl _, fun _ => .refl _⟩

theorem AtLeast.trans (h : c.AtLeast d) (h' : d.AtLeast e) : c.AtLeast e :=
  ⟨le_trans h'.policy h.policy, h.approvers.trans h'.approvers,
    fun a => (h.roles a).trans (h'.roles a)⟩

/-- **A favourable step leads to a case that is at least as good.** -/
theorem Favours.atLeast (h : c.Favours d) : c.AtLeast d := by
  cases h with
  | approve r hverdict hlatest =>
    refine ⟨le_refl _, ?_, fun _ => .refl _⟩
    rw [Review.approvers_concat hverdict hlatest]
    exact Finset.subset_insert _ _
  | promote a hold h =>
    exact ⟨le_refl _, Finset.Subset.refl _,
      c.census.covers_insert (hold ▸ Role.covers_of_le h)⟩
  | enrol a hunknown h =>
    exact ⟨le_refl _, Finset.Subset.refl _,
      c.census.covers_insert (hunknown ▸ Role.covers_of_authors h)⟩
  | ease p h => exact ⟨Policy.transitionTo_ne_lowers.mp h, Finset.Subset.refl _, fun _ => .refl _⟩

/-- **So do any number of them.** -/
theorem atLeast_of_favours (h : Relation.ReflTransGen Favours c d) : c.AtLeast d := by
  induction h with
  | refl => exact .refl c
  | tail _ hstep ih => exact ih.trans hstep.atLeast

theorem card_filter_le {s t : Finset Account} (hst : s ⊆ t) {P Q : Account → Prop}
    [DecidablePred P] [DecidablePred Q] (hPQ : ∀ a, P a → Q a) :
    (s.filter P).card ≤ (t.filter Q).card :=
  Finset.card_le_card fun a ha =>
    have ⟨hs, hP⟩ := Finset.mem_filter.mp ha
    Finset.mem_filter.mpr ⟨hst hs, hPQ a hP⟩

/-- **What meets a policy still does so in a case that is at least as good.** -/
theorem AtLeast.metBy (h : c.AtLeast d) (hmet : c.policy.MetBy c.reviews c.census.roleOf) :
    d.policy.MetBy d.reviews d.census.roleOf := by
  obtain ⟨htotal, hminimums⟩ := Policy.le_iff.mp h.policy
  obtain ⟨hmet, hmets⟩ := Policy.metBy_iff.mp hmet
  refine Policy.metBy_iff.mpr ⟨?_, fun r => ?_⟩
  · calc d.policy.total ≤ c.policy.total := htotal
      _ ≤ _ := hmet
      _ ≤ _ := card_filter_le h.approvers fun a => (h.roles a).total
  · calc d.policy.minimumFor r ≤ c.policy.minimumFor r := hminimums r
      _ ≤ _ := hmets r
      _ ≤ _ := card_filter_le h.approvers fun a => (h.roles a).minimum r

end Case

/-- **Readiness is monotone.** A change request that is ready is still so after any number of steps
that favour it: later approvals, higher roles, newcomers of standing `authors` at least, and
policies from which the step back lowers nothing. No counter overflows as long as fewer than
`2 ^ 32` accounts approve. -/
theorem ready_of_favours {c d : Case} (h : Relation.ReflTransGen Case.Favours c d)
    (hcount : (approvers d.reviews).card < 2 ^ 32) (hready : c.ready = true) : d.ready = true :=
  (Policy.readiness_ready_iff_metBy hcount).mpr
    ((Case.atLeast_of_favours h).metBy (Policy.metBy_of_ready hready))

/-- A reviewer and an account without a role approve, and a contributor does not. -/
def reviewedCase : Case where
  policy := ⟨2, { reviewers := some 1 }⟩
  reviews := [⟨"rev", .approved, ⟨⟨1⟩, 1⟩⟩, ⟨"new", .approved, ⟨⟨2⟩, 2⟩⟩,
    ⟨"con", .disapproved, ⟨⟨3⟩, 3⟩⟩]
  census := (RoleTable.empty.insert "rev" .reviewers).insert "con" .contributors

/-- The contributor has become a committer and approves, the newcomer has become an author, and no
reviewer is asked for any more. -/
def favouredCase : Case where
  policy := ⟨2, {}⟩
  reviews := reviewedCase.reviews ++ [⟨"con", .approved, ⟨⟨3⟩, 4⟩⟩]
  census := (reviewedCase.census.insert "con" .committers).insert "new" .authors

/-- Ready at first and ready in the end, after a step of each kind. -/
theorem ready_favouredCase : Relation.ReflTransGen Case.Favours reviewedCase favouredCase ∧
    (approvers favouredCase.reviews).card < 2 ^ 32 ∧
    reviewedCase.ready = true ∧ favouredCase.ready = true := by
  have hcontributor : reviewedCase.census.roleOf "con" = some .contributors := by decide +kernel
  have hpromote : reviewedCase.Favours { reviewedCase with
      census := reviewedCase.census.insert "con" .committers } :=
    .promote "con" hcontributor (by decide)
  have happrove : Case.Favours { reviewedCase with
      census := reviewedCase.census.insert "con" .committers } { favouredCase with
      policy := reviewedCase.policy
      census := reviewedCase.census.insert "con" .committers } :=
    .approve ⟨"con", .approved, ⟨⟨3⟩, 4⟩⟩ rfl (by decide +kernel)
  have henrol : Case.Favours { favouredCase with
      policy := reviewedCase.policy
      census := reviewedCase.census.insert "con" .committers }
      { favouredCase with policy := reviewedCase.policy } :=
    .enrol "new" (by decide +kernel) (by decide)
  have hease : Case.Favours { favouredCase with policy := reviewedCase.policy } favouredCase :=
    .ease ⟨2, {}⟩ (by decide +kernel)
  have hsteps := (((Relation.ReflTransGen.single hpromote).tail happrove).tail henrol).tail hease
  have hready : reviewedCase.ready = true := by decide +kernel
  have hcount : (approvers favouredCase.reviews).card < 2 ^ 32 := by
    rw [Approval.approvers_eq_toFinset]
    decide +kernel
  exact ⟨hsteps, hcount, hready, ready_of_favours hsteps hcount hready⟩

namespace Case

theorem favours_crowd_succ (p : Policy) (t : RoleTable) (n : Nat) :
    Favours ⟨p, crowd n, t⟩ ⟨p, crowd (n + 1), t⟩ := by
  rw [crowd_succ]
  exact .approve (crowdReview n) rfl fun r hr heq => absurd heq (reviewer_ne_of_mem_crowd hr)

theorem ready_crowd_iff (n : Nat) :
    Case.ready ⟨.default, crowd n, .empty⟩ = true ↔ 1 ≤ Tally.word n :=
  ReviewQuorum.ready_crowd_iff (by simp) n

end Case

/-- **One approval too many.** With that of the last account the counter of the total is back at
zero. -/
theorem unready_of_last_approval :
    Case.Favours ⟨.default, crowd (2 ^ 32 - 1), .empty⟩ ⟨.default, crowd (2 ^ 32), .empty⟩ ∧
      Case.ready ⟨.default, crowd (2 ^ 32 - 1), .empty⟩ = true ∧
      Case.ready ⟨.default, crowd (2 ^ 32), .empty⟩ = false := by
  refine ⟨Case.favours_crowd_succ _ _ (2 ^ 32 - 1), ?_, ?_⟩
  · rw [Case.ready_crowd_iff]
    decide
  · rw [← Bool.not_eq_true, Case.ready_crowd_iff]
    decide

-- A newcomer of standing `contributors` counts for less than an account without a role.
example : { reviewedCase with
    census := reviewedCase.census.insert "new" .contributors }.ready = false := by
  decide +kernel

end ReviewQuorum
