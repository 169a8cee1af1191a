import Mathlib.Data.Fintype.EquivFin
import ReviewQuorum.Proofs.Decimals
import ReviewQuorum.Proofs.GateAnswer
import ReviewQuorum.Proofs.TallyCount

/-! # What is short

A policy has a requirement for its total and one for every role, and each is set against the
accounts that count for it. The explanation of a readiness holds that of the total, and from the
lowest role up those of the roles that are short (`Policy.readiness_eq`). Its `shortfall` is the
largest number of approvals that one of them lacks.

The approval of a lead counts for everything. So newcomers of this standing who approve add their
number to what each requirement has (`Joined.card_filter`), and as many of them as the shortfall
says make a change request ready, and no fewer, as long as no counter overflows. What the gate
answers before that names everything that is short, line by line, and nothing else
(`shortfall_exact`). -/

namespace ReviewQuorum

/-! ### The explanation -/

theorem Requirement.isMet_iff {q : Requirement} : q.isMet = true ↔ q.required ≤ q.actual :=
  decide_eq_true_iff

theorem Requirement.shortfall_le_iff {q : Requirement} {n : Nat} :
    q.shortfall ≤ n ↔ q.required ≤ q.actual + n := by
  rw [shortfall]
  omega

/-- **The shortfall of an explanation**: the larger of that of its total and the largest of those of
its roles, if there are any. -/
def Explanation.shortfall (e : Explanation) : Nat :=
  max e.total.shortfall ((e.unmetRoles.map fun s => s.requirement.shortfall).max?.getD 0)

theorem Explanation.shortfall_le_iff {e : Explanation} {n : Nat} : e.shortfall ≤ n ↔
    e.total.shortfall ≤ n ∧ ∀ s ∈ e.unmetRoles, s.requirement.shortfall ≤ n := by
  rw [shortfall, max_le_iff]
  refine and_congr_right fun _ => ?_
  cases h : (e.unmetRoles.map fun s => s.requirement.shortfall).max? with
  | none => simp [List.map_eq_nil_iff.mp (List.max?_eq_none_iff.mp h)]
  | some k =>
    rw [Option.getD_some, List.max?_le_iff h]
    exact List.forall_mem_map

namespace Policy

variable (p : Policy) (reviews : List Review) (roleOf : Account → Option Role)

/-- What the total asks for, and what its counter shows of the accounts that count for it. -/
def totalRequirement : Requirement :=
  ⟨p.total, Tally.word
    ((approvers reviews).filter fun a => ∀ role ∈ roleOf a, Role.authors ≤ role).card⟩

/-- What the minimum of a role asks for, and what its counter shows. -/
def roleRequirement (r : Role) : Requirement :=
  ⟨p.minimumFor r,
    Tally.word ((approvers reviews).filter fun a => ∃ role ∈ roleOf a, r ≤ role).card⟩

/-- The roles that are short, lowest first. -/
def shortRoles : List Role :=
  Role.all.reverse.filter fun r => !(p.roleRequirement reviews roleOf r).isMet

variable {p reviews roleOf}

theorem roleRequirement_tally {r : Role} {m : Nat} (h : p.minimums.get? r = some m) :
    Readiness.roleRequirement (p.tally reviews roleOf) (r, m) =
      ⟨r, p.roleRequirement reviews roleOf r⟩ := by
  rw [Readiness.roleRequirement, approvalsOf_tally h, Approval.countP_countsFor, roleRequirement,
    minimumFor, h, Option.getD_some]

/-- **The roles whose minimum is not reached are those that are short.** -/
theorem unmetRoles_tally : Readiness.unmetRoles p (p.tally reviews roleOf) =
    (p.shortRoles reviews roleOf).map fun r => ⟨r, p.roleRequirement reviews roleOf r⟩ := by
  unfold Readiness.unmetRoles shortRoles RoleMap.toList
  induction Role.all.reverse with
  | nil => rfl
  | cons r roles ih =>
    -- a role without a minimum has no entry on the one side and is not short on the other
    rw [List.filter_cons, List.filterMap_cons]
    cases hm : p.minimums.get? r with
    | none =>
      have hmet : (p.roleRequirement reviews roleOf r).isMet = true := by
        simp [roleRequirement, Requirement.isMet, minimumFor, hm]
      simpa [hmet] using ih
    | some m =>
      rw [Option.map_some, List.map_cons, List.filter_cons, roleRequirement_tally hm, ih]
      split_ifs <;> rfl

/-- **Readiness and its explanation**, by the requirements. -/
theorem readiness_eq : p.readiness reviews roleOf =
    ⟨(p.totalRequirement reviews roleOf).isMet && (p.shortRoles reviews roleOf).isEmpty,
      ⟨p, p.digest, p.totalRequirement reviews roleOf,
        (p.shortRoles reviews roleOf).map fun r => ⟨r, p.roleRequirement reviews roleOf r⟩⟩⟩ := by
  rw [readiness, Readiness.evaluate, unmetRoles_tally, tally, Tally.total_ofReviews,
    List.isEmpty_map]
  rfl

/-- **At most so much is short** if the policy is met once as much is added to every count. -/
theorem shortfall_le_iff {n : Nat} : (p.readiness reviews roleOf).explanation.shortfall ≤ n ↔
    p.total ≤ (p.totalRequirement reviews roleOf).actual + n ∧
      ∀ r, p.minimumFor r ≤ (p.roleRequirement reviews roleOf r).actual + n := by
  rw [Explanation.shortfall_le_iff, readiness_eq]
  refine and_congr Requirement.shortfall_le_iff ?_
  rw [List.forall_mem_map]
  refine ⟨fun h r => ?_, fun h r _ => Requirement.shortfall_le_iff.mpr (h r)⟩
  -- the explanation leaves out the roles that need no more than they have
  cases hmet : (p.roleRequirement reviews roleOf r).isMet with
  | true => exact Nat.le_add_right_of_le (Requirement.isMet_iff.mp hmet)
  | false =>
    have hshort : r ∈ p.shortRoles reviews roleOf :=
      List.mem_filter.mpr ⟨List.mem_reverse.mpr r.mem_all, by rw [hmet]; rfl⟩
    exact Requirement.shortfall_le_iff.mp (h r hshort)

/-- **Ready means that nothing is short.** -/
theorem ready_iff_shortfall_eq_zero : (p.readiness reviews roleOf).ready = true ↔
    (p.readiness reviews roleOf).explanation.shortfall = 0 := by
  rw [← Nat.le_zero, shortfall_le_iff, readiness_ready_iff, Approval.countP_countsForTotal]
  simp only [Approval.countP_countsFor]
  rfl

end Policy

/-! ### Newcomers -/

/-- **Newcomers of standing `lead` approve, and nothing else changes**: each of them has reviewed,
with approvals only; the other reviews are those there were before, and the other accounts have the
roles that they had. -/
structure Joined (newcomers : Finset Account) (reviews : List Review)
    (roleOf : Account → Option Role) (reviews' : List Review) (roleOf' : Account → Option Role) :
    Prop where
  reviewed : ∀ a ∈ newcomers, ∃ r ∈ reviews', r.reviewer = a
  approved : ∀ r ∈ reviews', r.reviewer ∈ newcomers → r.verdict = .approved
  others : reviews'.filter (fun r => r.reviewer ∉ newcomers) = reviews
  lead : ∀ a ∈ newcomers, roleOf' a = some .lead
  kept : ∀ a ∉ newcomers, roleOf' a = roleOf a

theorem joined_append {newcomers : Finset Account} {reviews : List Review}
    (hnew : ∀ r ∈ reviews, r.reviewer ∉ newcomers) (roleOf : Account → Option Role) (m : Moment) :
    Joined newcomers reviews roleOf
      (reviews ++ newcomers.toList.map fun a => ⟨a, .approved, m⟩)
      fun a => if a ∈ newcomers then some .lead else roleOf a where
  reviewed a ha := ⟨⟨a, .approved, m⟩, by simp [ha], rfl⟩
  approved r hr ha := by
    rcases List.mem_append.mp hr with hr | hr
    · exact absurd ha (hnew r hr)
    · obtain ⟨a, -, rfl⟩ := List.mem_map.mp hr
      rfl
  others := by
    rw [List.filter_append, List.filter_eq_self.mpr (by simpa using hnew),
      List.filter_eq_nil_iff.mpr (by simp), List.append_nil]
  lead a ha := if_pos ha
  kept a ha := if_neg ha

theorem exists_joined (reviews : List Review) (roleOf : Account → Option Role) (n : Nat) :
    ∃ newcomers reviews' roleOf',
      newcomers.card = n ∧ Joined newcomers reviews roleOf reviews' roleOf' := by
  let old := (reviews.map (·.reviewer)).toFinset
  obtain ⟨accounts, hsubset, hcard⟩ :=
    Infinite.exists_superset_card_eq old (old.card + n) (Nat.le_add_right _ _)
  refine ⟨accounts \ old, _, _, ?_, joined_append (fun r hr hnew => ?_) roleOf default⟩
  · rw [Finset.card_sdiff_of_subset hsubset, hcard, Nat.add_sub_cancel_left]
  · exact (Finset.mem_sdiff.mp hnew).2 (List.mem_toFinset.mpr (List.mem_map_of_mem hr))

namespace Joined

variable {newcomers : Finset Account} {reviews reviews' : List Review}
  {roleOf roleOf' : Account → Option Role}

theorem latestOf?_eq (h : Joined newcomers reviews roleOf reviews' roleOf') {a : Account}
    (ha : a ∉ newcomers) : Review.latestOf? reviews' a = Review.latestOf? reviews a := by
  unfold Review.latestOf? Review.inOrderOf
  rw [← h.others, List.filter_filter]
  congr 2
  refine List.filter_congr fun r _ => ?_
  by_cases hr : r.reviewer = a
  · simp [hr, ha]
  · simp [hr]

theorem approvers_eq (h : Joined newcomers reviews roleOf reviews' roleOf') :
    approvers reviews' = approvers reviews ∪ newcomers := by
  ext a
  rw [Finset.mem_union, mem_approvers, mem_approvers]
  by_cases ha : a ∈ newcomers
  · refine iff_of_true ?_ (.inr ha)
    rw [Review.approves, Option.any_eq_true]
    cases hlatest : Review.latestOf? reviews' a with
    | none =>
      obtain ⟨r, hr, hreviewer⟩ := h.reviewed a ha
      exact absurd hreviewer (Review.latestOf?_eq_none_iff.mp hlatest r hr)
    | some r =>
      obtain ⟨hr, hreviewer⟩ := Review.of_latestOf? hlatest
      exact ⟨r, rfl, by rw [h.approved r hr (hreviewer ▸ ha)]; rfl⟩
  · rw [Review.approves, h.latestOf?_eq ha, ← Review.approves]
    exact (or_iff_left ha).symm

theorem disjoint_approvers (h : Joined newcomers reviews roleOf reviews' roleOf') :
    Disjoint (approvers reviews) newcomers := by
  refine Finset.disjoint_left.mpr fun a happrover ha => ?_
  obtain ⟨r, hr, rfl⟩ := exists_of_mem_approvers happrover
  rw [← h.others] at hr
  exact of_decide_eq_true (List.mem_filter.mp hr).2 ha

/-- **All newcomers count for what a lead counts for**, and the other accounts for what they did. -/
theorem card_filter (h : Joined newcomers reviews roleOf reviews' roleOf')
    {P : Option Role → Prop} [DecidablePred P] (hlead : P (some .lead)) :
    ((approvers reviews').filter fun a => P (roleOf' a)).card =
      ((approvers reviews).filter fun a => P (roleOf a)).card + newcomers.card := by
  have hold : (approvers reviews).filter (fun a => P (roleOf' a)) =
      (approvers reviews).filter fun a => P (roleOf a) :=
    Finset.filter_congr fun a ha => by
      rw [h.kept a (Finset.disjoint_left.mp h.disjoint_approvers ha)]
  have hnew : newcomers.filter (fun a => P (roleOf' a)) = newcomers :=
    Finset.filter_true_of_mem fun a ha => by rwa [h.lead a ha]
  rw [h.approvers_eq, Finset.filter_union, hold, hnew,
    Finset.card_union_of_disjoint
      (Finset.disjoint_of_subset_left (Finset.filter_subset _ _) h.disjoint_approvers)]

/-- **As many newcomers as are short are enough**, and fewer are not. -/
theorem ready_iff (h : Joined newcomers reviews roleOf reviews' roleOf')
    (hcount : (approvers reviews').card < UInt32.size) (p : Policy) :
    (p.readiness reviews' roleOf').ready = true ↔
      (p.readiness reviews roleOf).explanation.shortfall ≤ newcomers.card := by
  have hbefore : (approvers reviews).card < UInt32.size :=
    lt_of_le_of_lt (Finset.card_le_card (h.approvers_eq ▸ Finset.subset_union_left)) hcount
  have htotal := h.card_filter (P := fun held => ∀ role ∈ held, Role.authors ≤ role)
    (fun role hrole => Option.some.inj hrole ▸ by decide)
  have hrole := fun r : Role => h.card_filter (P := fun held => ∃ role ∈ held, r ≤ role)
    ⟨.lead, rfl, by cases r <;> decide⟩
  rw [Policy.readiness_ready_iff_metBy hcount, Policy.metBy_iff, htotal, Policy.shortfall_le_iff]
  simp only [hrole, Policy.totalRequirement, Policy.roleRequirement,
    Tally.word_card_filter hbefore]

end Joined

/-! ### The message -/

namespace BlockReason

theorem message_eq_intercalate {reason : BlockReason} (h : reason.lines ≠ [])
    (action : GateAction) : message action reason =
      "\n".intercalate (headline action :: "" :: reason.lines) := by
  have hblank : "\n\n" = "\n" ++ "\n" := rfl
  rw [message, if_neg (by simpa using h), String.intercalate_cons_cons,
    String.intercalate_cons_of_ne_nil h, hblank]
  simp only [String.append_assoc, String.empty_append]

theorem newline_notMem_totalLine (q : Requirement) : '\n' ∉ (totalLine q).toList := by
  have hdigits (n : Nat) : '\n' ∉ (Decimal.ofNat n).toList := fun hmem =>
    absurd (Decimal.isDigit_of_mem_ofNat hmem) (by decide)
  simp only [totalLine, String.toList_append, List.mem_append, hdigits, or_false]
  decide

theorem newline_notMem_roleLine (s : RoleShortfall) : '\n' ∉ (roleLine s).toList := by
  have hname : '\n' ∉ s.role.name.toList := by cases s.role <;> decide
  simp only [roleLine, String.toList_append, List.mem_append, newline_notMem_totalLine, hname]
  decide

/-- **The lines of a message** about what is short: the headline, an empty one, and one for each
requirement that is not met. -/
theorem split_message {e : Explanation} (h : (unready e).lines ≠ []) (action : GateAction) :
    ((message action (unready e)).split '\n').toList.map (·.copy) =
      headline action :: "" :: (unready e).lines := by
  have hlines : ∀ line ∈ headline action :: "" :: (unready e).lines, '\n' ∉ line.toList := by
    simp only [lines, List.forall_mem_cons, List.forall_mem_append, List.forall_mem_map]
    refine ⟨by cases action <;> decide, nofun, ?_, fun s _ => newline_notMem_roleLine s⟩
    split_ifs
    · exact nofun
    · exact List.forall_mem_singleton.mpr (newline_notMem_totalLine _)
  rw [message_eq_intercalate h]
  exact (String.toList_split_intercalate hlines).trans (if_neg (List.cons_ne_nil _ _))

end BlockReason

/-- **The lines about what is short of a policy**: of its total if that is short, and of each role
that is short, lowest first. -/
def Policy.shortLines (p : Policy) (reviews : List Review) (roleOf : Account → Option Role) :
    List String :=
  (if (p.totalRequirement reviews roleOf).isMet then []
    else [BlockReason.totalLine (p.totalRequirement reviews roleOf)]) ++
  (p.shortRoles reviews roleOf).map fun r =>
    BlockReason.roleLine ⟨r, p.roleRequirement reviews roleOf r⟩

namespace Policy

variable {p : Policy} {reviews : List Review} {roleOf : Account → Option Role}

theorem lines_explanation :
    (BlockReason.unready (p.readiness reviews roleOf).explanation).lines =
      p.shortLines reviews roleOf := by
  rw [readiness_eq, BlockReason.lines, shortLines, List.map_map]
  rfl

theorem shortLines_eq_nil_iff :
    p.shortLines reviews roleOf = [] ↔ (p.readiness reviews roleOf).ready = true := by
  rw [readiness_eq, Bool.and_eq_true, List.isEmpty_iff, shortLines, List.append_eq_nil_iff,
    List.map_eq_nil_iff]
  cases (p.totalRequirement reviews roleOf).isMet <;> simp

end Policy

/-- **The stated shortfall is exact.** Newcomers of standing `lead` who approve may come in any
number, and as long as fewer than `2 ^ 32` accounts approve, they make a change request ready if and
only if there are as many of them as the explanation says are short; it is ready already if and only
if nothing is. When it is not ready, the gate answers either action with a headline, an empty line
and what is short, which has at least one line: one of the total if that is short, and one of each
role that is short, lowest first. -/
theorem shortfall_exact (p : Policy) (reviews : List Review) (roleOf : Account → Option Role) :
    let readiness := p.readiness reviews roleOf
    let shortfall := readiness.explanation.shortfall
    (∀ n, ∃ newcomers reviews' roleOf', newcomers.card = n ∧
      Joined newcomers reviews roleOf reviews' roleOf') ∧
    (∀ newcomers reviews' roleOf', Joined newcomers reviews roleOf reviews' roleOf' →
      (approvers reviews').card < 2 ^ 32 →
        ((p.readiness reviews' roleOf').ready = true ↔ shortfall ≤ newcomers.card)) ∧
    (readiness.ready = true ↔ shortfall = 0) ∧
    (readiness.ready = false → ∀ action, ∃ message,
      GateAnswer.ofDecision action (.ofReadiness? (some readiness)) =
          .blocked (.unready readiness.explanation) message ∧
        (message.split '\n').toList.map (·.copy) =
          BlockReason.headline action :: "" :: p.shortLines reviews roleOf ∧
        p.shortLines reviews roleOf ≠ []) := by
  intro readiness shortfall
  refine ⟨exists_joined reviews roleOf,
    fun newcomers reviews' roleOf' h hcount => h.ready_iff hcount p,
    Policy.ready_iff_shortfall_eq_zero, fun hready action => ?_⟩
  have hlines : p.shortLines reviews roleOf ≠ [] := fun hnil => by
    rw [Policy.shortLines_eq_nil_iff] at hnil
    exact Bool.false_ne_true (hready.symm.trans hnil)
  refine ⟨BlockReason.message action (.unready readiness.explanation), ?_, ?_, hlines⟩
  · rw [GateDecision.ofReadiness?, if_neg (by rw [hready]; exact Bool.false_ne_true)]
    rfl
  · rw [← Policy.lines_explanation] at hlines ⊢
    exact BlockReason.split_message hlines action

/-- Two approvals are asked for, both of reviewers. -/
def twoOfReviewers : Policy := ⟨2, { reviewers := some 2 }⟩

/-- A committer has approved. -/
def committerApproval : List Review := [⟨"com", .approved, ⟨⟨2⟩, 2⟩⟩]

/-- Who holds a role before the leads join. -/
def committerTable : RoleTable := RoleTable.empty.insert "com" .committers

/-- One lead is not enough and two are, one of whom has approved twice. -/
theorem shortfall_exact_twoLeads :
    let one := committerTable.insert "kim" .lead
    let two := one.insert "lou" .lead
    let kim : Review := ⟨"kim", .approved, ⟨⟨3⟩, 3⟩⟩
    let lou : Review := ⟨"lou", .approved, ⟨⟨1⟩, 1⟩⟩
    (twoOfReviewers.readiness (committerApproval ++ [kim]) one.roleOf).ready = false ∧
    (twoOfReviewers.readiness (lou :: committerApproval ++ [kim, lou]) two.roleOf).ready = true ∧
    ∃ reason message,
      GateAnswer.ofDecision .integrate (.ofReadiness?
        (some (twoOfReviewers.readiness committerApproval committerTable.roleOf))) =
          .blocked reason message ∧
      (message.split '\n').toList.map (·.copy) =
        ["Your pull request has not yet been marked as ready for integration.", "",
          "- 1 of 2 required approvals", "- 0 of 2 required approvals of role reviewers"] := by
  intro one two kim lou
  obtain ⟨-, hjoined, -, hblocked⟩ :=
    shortfall_exact twoOfReviewers committerApproval committerTable.roleOf
  have hshortfall : (twoOfReviewers.readiness committerApproval
      committerTable.roleOf).explanation.shortfall = 2 := by decide +kernel
  have hone : Joined {"kim"} committerApproval committerTable.roleOf
      (committerApproval ++ [kim]) one.roleOf :=
    ⟨by decide, by decide, by decide, by decide +kernel, fun a ha => by
      rw [RoleTable.roleOf_insert, if_neg (by simpa [eq_comm] using ha)]⟩
  have htwo : Joined {"kim", "lou"} committerApproval committerTable.roleOf
      (lou :: committerApproval ++ [kim, lou]) two.roleOf :=
    ⟨by decide, by decide, by decide, by decide +kernel, fun a ha => by
      simp only [Finset.mem_insert, Finset.mem_singleton, not_or] at ha
      rw [RoleTable.roleOf_insert, if_neg (Ne.symm ha.2), RoleTable.roleOf_insert,
        if_neg (Ne.symm ha.1)]⟩
  have hcountOne : (approvers (committerApproval ++ [kim])).card < 2 ^ 32 := by
    rw [Approval.approvers_eq_toFinset]
    decide +kernel
  have hcountTwo : (approvers (lou :: committerApproval ++ [kim, lou])).card < 2 ^ 32 := by
    rw [Approval.approvers_eq_toFinset]
    decide +kernel
  obtain ⟨message, hanswer, hlines, -⟩ := hblocked (by decide +kernel) .integrate
  refine ⟨?_, (hjoined _ _ _ htwo hcountTwo).mpr (by rw [hshortfall]; decide), _, message,
    hanswer, ?_⟩
  · rw [← Bool.not_eq_true, hjoined _ _ _ hone hcountOne, hshortfall]
    decide
  · rw [hlines]
    decide +kernel

theorem joined_crowd (n : Nat) : Joined (approvers (crowd n)) [] (fun _ => none) (crowd n)
    fun a => if a ∈ approvers (crowd n) then some .lead else none where
  reviewed _ ha := exists_of_mem_approvers ha
  approved r hr _ := by
    obtain ⟨i, -, rfl⟩ := exists_of_mem_crowd hr
    rfl
  others := List.filter_eq_nil_iff.mpr fun r hr => by simpa using mem_approvers_of_mem_crowd hr
  lead _ ha := if_pos ha
  kept _ ha := if_neg ha

/-- **More than enough leads, and not ready.** One approval is short, and the counter shows none of
those of `2 ^ 32` leads. -/
theorem unready_of_full_crowd :
    let leads := approvers (crowd (2 ^ 32))
    let roleOf := fun a => if a ∈ leads then some Role.lead else none
    Joined leads [] (fun _ => none) (crowd (2 ^ 32)) roleOf ∧ leads.card = 2 ^ 32 ∧
      (Policy.default.readiness [] fun _ => none).explanation.shortfall = 1 ∧
      (Policy.default.readiness (crowd (2 ^ 32)) roleOf).ready = false := by
  refine ⟨joined_crowd _, card_approvers_crowd _, by decide +kernel, ?_⟩
  rw [← Bool.not_eq_true, ready_crowd_iff]
  · decide
  · intro a role hrole
    split_ifs at hrole with ha
    · exact Option.some.inj hrole ▸ by decide
    · cases hrole

end ReviewQuorum
