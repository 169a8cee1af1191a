import ReviewQuorum.Proofs.Crowd
import ReviewQuorum.Proofs.Since

/-! # What a tally counts

The `Effective` review of an account is the last one in the list among its reviews of the greatest
moment. Reviews are gone through once, from the left, and each takes the place of the one that was
kept of its account unless that is later. A review that is put behind the others is effective if no
earlier one is later (`Review.effective_last`), and otherwise the effective one stays so
(`Review.Effective.concat`); no two are effective (`Review.Effective.unique`). So what is kept in
the end is the effective review (`Review.latestOf?_eq_some_iff`).

The accounts that a tally counts are those whose effective review approves, each once, and its
counters show the sizes of parts of this set (`tally_counts`). -/

namespace ReviewQuorum

/-! ### The effective review -/

namespace Review

/-- A review of an account at a moment. -/
def IsOf (a : Account) (m : Moment) (r : Review) : Prop := r.reviewer = a ∧ r.moment = m

/-- **The effective review of an account**: no review of the account has a greater moment, and among
those of the same moment it is the last in the list. -/
structure Effective (reviews : List Review) (a : Account) (r : Review) : Prop where
  greatest : ∀ r' ∈ reviews, r'.reviewer = a → r'.moment.le r.moment = true
  last : ∃ later, Since (IsOf a r.moment) (IsOf a r.moment) reviews r later

variable {reviews : List Review} {a : Account} {r c : Review}

theorem Effective.mem (h : Effective reviews a r) : r ∈ reviews ∧ r.reviewer = a := by
  obtain ⟨-, later, hsince⟩ := h
  exact ⟨hsince.ending.subset List.mem_cons_self, hsince.kind.1⟩

/-- A review behind the others, none of which is later. -/
theorem effective_last (hc : c.reviewer = a)
    (hle : ∀ r' ∈ reviews, r'.reviewer = a → r'.moment.le c.moment = true) :
    Effective (reviews ++ [c]) a c := by
  refine ⟨fun r' hr' ha => ?_, [], since_concat.mpr (.inl ⟨⟨hc, rfl⟩, rfl, rfl⟩)⟩
  rcases List.mem_append.mp hr' with hr' | hr'
  · exact hle r' hr' ha
  · rw [List.mem_singleton.mp hr']
    exact c.moment.le_refl

theorem Effective.concat (h : Effective reviews a r)
    (hc : c.reviewer = a → c.moment.lt r.moment = true) : Effective (reviews ++ [c]) a r := by
  obtain ⟨hgreatest, later, hlast⟩ := h
  have hnot : ¬ IsOf a r.moment c := by
    rintro ⟨hreviewer, hmoment⟩
    have hlt := hc hreviewer
    rw [hmoment, Moment.lt, r.moment.le_refl] at hlt
    cases hlt
  refine ⟨fun r' hr' ha => ?_, later ++ [c], since_concat.mpr (.inr ⟨hnot, later, rfl, hlast⟩)⟩
  rcases List.mem_append.mp hr' with hr' | hr'
  · exact hgreatest r' hr' ha
  · obtain rfl := List.mem_singleton.mp hr'
    have hlt := Moment.lt_iff.mp (hc ha)
    rw [Moment.le_iff]
    omega

/-- **An account has one effective review.** -/
theorem Effective.unique {r' : Review} (h : Effective reviews a r) (h' : Effective reviews a r') :
    r = r' := by
  have hmoment : r.moment = r'.moment :=
    Moment.le_antisymm (h'.greatest r h.mem.1 h.mem.2) (h.greatest r' h'.mem.1 h'.mem.2)
  obtain ⟨later, hlast⟩ := h.last
  obtain ⟨later', hlast'⟩ := h'.last
  -- whichever comes first in the list, nothing of its kind comes after it
  rcases List.suffix_or_suffix_of_suffix hlast.ending hlast'.ending with hsuffix | hsuffix
  · rcases List.suffix_cons_iff.mp hsuffix with heq | hsuffix
    · exact (List.cons.inj heq).1
    · exact absurd ⟨h.mem.2, hmoment⟩ (hlast'.clear r (hsuffix.subset List.mem_cons_self))
  · rcases List.suffix_cons_iff.mp hsuffix with heq | hsuffix
    · exact (List.cons.inj heq).1.symm
    · exact absurd ⟨h'.mem.2, hmoment.symm⟩ (hlast.clear r' (hsuffix.subset List.mem_cons_self))

theorem effective_of_latestOf? (h : latestOf? reviews a = some r) : Effective reviews a r := by
  induction reviews using List.reverseRecOn generalizing r with
  | nil => simp [latestOf?, inOrderOf] at h
  | append_singleton reviews c ih =>
    rw [latestOf?_concat] at h
    split_ifs at h with hc
    · cases hold : latestOf? reviews a with
      | none =>
        have hnone := latestOf?_eq_none_iff.mp hold
        obtain rfl : c = r := by simpa [hold] using h
        exact effective_last hc fun r' hr' ha => absurd ha (hnone r' hr')
      | some old =>
        have heffective := ih hold
        obtain rfl : c.orLater old = r := by simpa [hold] using h
        rw [orLater]
        split_ifs with hle
        · exact effective_last hc fun r' hr' ha =>
            Moment.le_trans (heffective.greatest r' hr' ha) hle
        · exact heffective.concat fun _ => by simp [Moment.lt, hle]
    · exact (ih h).concat fun hreviewer => absurd hreviewer hc

/-- **The review that is kept of an account is the effective one.** -/
theorem latestOf?_eq_some_iff : latestOf? reviews a = some r ↔ Effective reviews a r := by
  refine ⟨effective_of_latestOf?, fun h => ?_⟩
  cases hlatest : latestOf? reviews a with
  | none => exact absurd h.mem.2 (latestOf?_eq_none_iff.mp hlatest r h.mem.1)
  | some r' => rw [(effective_of_latestOf? hlatest).unique h]

theorem mem_approvers_iff :
    a ∈ approvers reviews ↔ ∃ r, Effective reviews a r ∧ r.verdict = .approved := by
  rw [mem_approvers, approves, Option.any_eq_true]
  simp only [latestOf?_eq_some_iff, beq_iff_eq]

end Review

/-! ### The numbers -/

namespace Tally

variable {reviews : List Review} {roles : List Role} {roleOf : Account → Option Role}

theorem approvals_ofReviews : (ofReviews reviews roles roleOf).approvals =
    (Approval.accounts reviews).map fun a => ⟨a, roleOf a⟩ := Approval.ofReviews_eq reviews roleOf

theorem sorted_approvals_ofReviews :
    ((ofReviews reviews roles roleOf).approvals.map (·.reviewer)).Pairwise (· < ·) := by
  have haccounts : (ofReviews reviews roles roleOf).approvals.map (·.reviewer) =
      Approval.accounts reviews := by
    rw [approvals_ofReviews, List.map_map]
    exact List.map_id _
  exact haccounts ▸ Approval.sorted_accounts reviews

theorem mem_approvals_ofReviews {x : Approval} : x ∈ (ofReviews reviews roles roleOf).approvals ↔
    x.reviewer ∈ approvers reviews ∧ x.role = roleOf x.reviewer := by
  rw [approvals_ofReviews, List.mem_map]
  simp only [Approval.mem_accounts]
  constructor
  · rintro ⟨a, ha, rfl⟩
    exact ⟨ha, rfl⟩
  · rintro ⟨ha, hrole⟩
    exact ⟨x.reviewer, ha, by rw [← hrole]⟩

theorem total_ofReviews : (ofReviews reviews roles roleOf).total =
    word ((approvers reviews).filter fun a => ∀ role ∈ roleOf a, Role.authors ≤ role).card := by
  rw [← Approval.countP_countsForTotal]
  rfl

theorem get?_byRole_ofReviews (r : Role) : (ofReviews reviews roles roleOf).byRole.get? r =
    if r ∈ roles then
      some (word ((approvers reviews).filter fun a => ∃ role ∈ roleOf a, r ≤ role).card)
    else none := by
  rw [ofReviews, ofApprovals,
    RoleMap.get?_ofList_map_eq fun r => word (List.countP (Approval.countsFor r) _),
    Approval.countP_countsFor]

/-! Where no counter overflows, it shows what was counted. -/

section Exact

variable (hcount : (approvers reviews).card < UInt32.size)
include hcount

theorem total_ofReviews_of_lt : (ofReviews reviews roles roleOf).total =
    ((approvers reviews).filter fun a => ∀ role ∈ roleOf a, Role.authors ≤ role).card := by
  rw [total_ofReviews, word_card_filter hcount]

theorem approvalsOf_ofReviews {r : Role} (hr : r ∈ roles) :
    (ofReviews reviews roles roleOf).approvalsOf r =
      ((approvers reviews).filter fun a => ∃ role ∈ roleOf a, r ≤ role).card := by
  rw [approvalsOf, get?_byRole_ofReviews, if_pos hr, Option.getD_some, word_card_filter hcount]

omit hcount in
theorem approvalsOf_ofReviews_le {r : Role} {P : Account → Prop} [DecidablePred P]
    (hP : ∀ a, (∃ role ∈ roleOf a, r ≤ role) → P a) :
    (ofReviews reviews roles roleOf).approvalsOf r ≤ ((approvers reviews).filter P).card := by
  rw [approvalsOf, get?_byRole_ofReviews]
  split_ifs
  · exact (word_le _).trans (Finset.card_le_card (Finset.monotone_filter_right _ fun a _ => hP a))
  · exact Nat.zero_le _

/-- **No more approvals of a role than of one below it.** -/
theorem approvalsOf_ofReviews_antitone {r r' : Role} (hr : r ∈ roles) (hle : r ≤ r') :
    (ofReviews reviews roles roleOf).approvalsOf r' ≤
      (ofReviews reviews roles roleOf).approvalsOf r := by
  rw [approvalsOf_ofReviews hcount hr]
  exact approvalsOf_ofReviews_le fun a ⟨role, hrole, h⟩ => ⟨role, hrole, Nat.le_trans hle h⟩

/-- **No more approvals of a role from `authors` up than in the total.** -/
theorem approvalsOf_ofReviews_le_total {r : Role} (hr : .authors ≤ r) :
    (ofReviews reviews roles roleOf).approvalsOf r ≤ (ofReviews reviews roles roleOf).total := by
  rw [total_ofReviews_of_lt hcount]
  refine approvalsOf_ofReviews_le fun a ⟨role, hrole, h⟩ role' hrole' => ?_
  rw [Option.mem_unique hrole' hrole]
  exact Nat.le_trans hr h

end Exact

end Tally

/-- **Each account counts once, by its effective review.** The approvals are the accounts whose
effective review approves, in increasing order and with their roles. The counter of the total shows
the number of those that are unknown or of standing `authors` at least. There is a counter for each
role that is asked for and for no other one, and it shows the number of the accounts of its standing
at least. Below `2 ^ 32` accounts the counters show these numbers themselves, and so a role has no
more approvals than one below it, and from `authors` up no more than the total. -/
theorem tally_counts (reviews : List Review) (roles : List Role)
    (roleOf : Account → Option Role) :
    let t := Tally.ofReviews reviews roles roleOf
    (∀ a, a ∈ approvers reviews ↔ ∃ r, Review.Effective reviews a r ∧ r.verdict = .approved) ∧
    ((t.approvals.map (·.reviewer)).Pairwise (· < ·) ∧
      ∀ x, x ∈ t.approvals ↔ x.reviewer ∈ approvers reviews ∧ x.role = roleOf x.reviewer) ∧
    t.total =
      ((approvers reviews).filter fun a => ∀ role ∈ roleOf a, Role.authors ≤ role).card % 2 ^ 32 ∧
    (∀ r, t.byRole.get? r =
      if r ∈ roles then
        some (((approvers reviews).filter fun a => ∃ role ∈ roleOf a, r ≤ role).card % 2 ^ 32)
      else none) ∧
    ((approvers reviews).card < 2 ^ 32 →
      t.total = ((approvers reviews).filter fun a => ∀ role ∈ roleOf a, Role.authors ≤ role).card ∧
      (∀ r ∈ roles, t.byRole.get? r =
        some ((approvers reviews).filter fun a => ∃ role ∈ roleOf a, r ≤ role).card) ∧
      (∀ r ∈ roles, ∀ r', r ≤ r' → t.approvalsOf r' ≤ t.approvalsOf r) ∧
      ∀ r, Role.authors ≤ r → t.approvalsOf r ≤ t.total) := by
  intro t
  refine ⟨fun a => Review.mem_approvers_iff,
    ⟨Tally.sorted_approvals_ofReviews, fun x => Tally.mem_approvals_ofReviews⟩,
    Tally.total_ofReviews, Tally.get?_byRole_ofReviews, fun hcount => ?_⟩
  refine ⟨Tally.total_ofReviews_of_lt hcount, fun r hr => ?_,
    fun r hr r' hle => Tally.approvalsOf_ofReviews_antitone hcount hr hle,
    fun r hr => Tally.approvalsOf_ofReviews_le_total hcount hr⟩
  rw [Tally.get?_byRole_ofReviews, if_pos hr, Tally.word_card_filter hcount]

/-- Reviews of four accounts: two are given at one moment, and one is later than the next in the
list. -/
def tiedReviews : List Review :=
  [⟨"rev", .disapproved, ⟨⟨1⟩, 1⟩⟩, ⟨"new", .approved, ⟨⟨2⟩, 2⟩⟩, ⟨"rev", .approved, ⟨⟨1⟩, 1⟩⟩,
    ⟨"con", .approved, ⟨⟨3⟩, 3⟩⟩, ⟨"com", .disapproved, ⟨⟨4⟩, 4⟩⟩, ⟨"com", .approved, ⟨⟨4⟩, 3⟩⟩]

/-- Who holds which role: nothing is known of the newcomer. -/
def tiedTable : RoleTable :=
  ((RoleTable.empty.insert "rev" .reviewers).insert "con" .contributors).insert "com" .committers

/-- The reviewer and the newcomer count for the total. -/
theorem tally_counts_tiedReviews :
    let t := Tally.ofReviews tiedReviews [.reviewers, .contributors] tiedTable.roleOf
    (approvers tiedReviews).card < 2 ^ 32 ∧ t.total = 2 ∧
      t.approvalsOf .reviewers ≤ t.approvalsOf .contributors ∧
      t.approvalsOf .reviewers ≤ t.total := by
  intro t
  obtain ⟨-, -, -, -, hexact⟩ :=
    tally_counts tiedReviews [.reviewers, .contributors] tiedTable.roleOf
  have hcard : (approvers tiedReviews).card = 3 := by
    rw [Approval.approvers_eq_toFinset]
    decide +kernel
  have hcount : (approvers tiedReviews).card < 2 ^ 32 := by
    rw [hcard]
    decide
  obtain ⟨-, -, hantitone, htotal⟩ := hexact hcount
  exact ⟨hcount, by decide +kernel, hantitone .contributors (by decide) .reviewers (by decide),
    htotal .reviewers (by decide)⟩

/-- **A counter overflows.** All of `2 ^ 32` accounts approve, and the total shows none of them. -/
theorem total_of_full_crowd :
    let t := Tally.ofReviews (crowd (2 ^ 32)) [] RoleTable.empty.roleOf
    t.total = 0 ∧ ((approvers (crowd (2 ^ 32))).filter fun a =>
      ∀ role ∈ RoleTable.empty.roleOf a, Role.authors ≤ role).card = 2 ^ 32 := by
  have hall : ((approvers (crowd (2 ^ 32))).filter fun a =>
      ∀ role ∈ RoleTable.empty.roleOf a, Role.authors ≤ role).card = 2 ^ 32 := by
    rw [Finset.filter_true_of_mem fun a _ => fun role hrole => absurd hrole (by simp),
      card_approvers_crowd]
  refine ⟨?_, hall⟩
  rw [Tally.total_ofReviews, hall]
  decide

/-- Of two reviews of one moment the last in the list is effective. An account without a role counts
for the total alone, and a contributor for contributors alone. -/
example : Tally.ofReviews tiedReviews [.reviewers, .contributors] tiedTable.roleOf =
    ⟨2, { contributors := some 2, reviewers := some 1 },
      [⟨"con", some .contributors⟩, ⟨"new", none⟩, ⟨"rev", some .reviewers⟩]⟩ := by
  decide +kernel

end ReviewQuorum
