import Mathlib.Data.Finset.Card
import ReviewQuorum.Proofs.ReadinessOrder
import ReviewQuorum.Proofs.StableOrder

/-! # The accounts that approve

Going through the reviews once and keeping the latest of each account leaves what one gets by
putting the reviews of an account in order and taking the last (`Review.get?_latest`). So the
approvals that are counted are those of a set of accounts, `approvers`, with the roles that they
hold, and the numbers of a tally are sizes of parts of this set (`countP_ofReviews`). The tally
depends on the roles of reviewers only (`Policy.tally_congr`). -/

namespace ReviewQuorum

namespace Review

/-- The reviews of an account in the order of their moments; those that tie keep their order. -/
def inOrderOf (reviews : List Review) (a : Account) : List Review :=
  (reviews.filter fun r => r.reviewer == a).mergeSort fun r r' => r.moment.le r'.moment

/-- The latest review of an account. -/
def latestOf? (reviews : List Review) (a : Account) : Option Review :=
  (inOrderOf reviews a).getLast?

/-- Whether the latest review of an account approves. -/
def approves (reviews : List Review) (a : Account) : Bool :=
  (latestOf? reviews a).any fun r => r.verdict == .approved

/-- A review in the place of an old one, unless that is later. -/
def orLater (r old : Review) : Review := if old.moment.le r.moment then r else old

variable {reviews : List Review} {a : Account} {r : Review}

theorem of_latestOf? (h : latestOf? reviews a = some r) : r ∈ reviews ∧ r.reviewer = a := by
  have hr := List.mem_mergeSort.mp (List.mem_of_getLast? h)
  exact ⟨(List.mem_filter.mp hr).1, by simpa using (List.mem_filter.mp hr).2⟩

theorem latestOf?_eq_none_iff : latestOf? reviews a = none ↔ ∀ r ∈ reviews, r.reviewer ≠ a := by
  rw [latestOf?, List.getLast?_eq_none_iff, inOrderOf, ← List.length_eq_zero_iff,
    List.length_mergeSort, List.length_eq_zero_iff, List.filter_eq_nil_iff]
  simp only [beq_iff_eq, ne_eq]

theorem latestOf?_concat (reviews : List Review) (r : Review) (a : Account) :
    latestOf? (reviews ++ [r]) a =
      if r.reviewer = a then some ((latestOf? reviews a).elim r r.orLater)
      else latestOf? reviews a := by
  unfold latestOf? inOrderOf
  rw [List.filter_append]
  split_ifs with h
  · rw [List.filter_cons_of_pos (by simp [h]), List.filter_nil]
    exact StableOrder.getLast?_mergeSort_concat (Moment.le_trans_of Review.moment)
      (Moment.le_total_of _) _ r
  · rw [List.filter_cons_of_neg (by simp [h]), List.filter_nil, List.append_nil]

theorem get?_keepLatest (latest : Dict Review) (r : Review) (a : Account) :
    (keepLatest latest r).get? a =
      if r.reviewer = a then some ((latest.get? a).elim r r.orLater) else latest.get? a := by
  unfold keepLatest
  split_ifs with h
  · subst h
    cases hold : latest.get? r.reviewer with
    | none => simp
    | some old =>
      by_cases hle : old.moment.le r.moment = true
      · simp [Moment.lt, orLater, hle]
      · simp [Moment.lt, orLater, hle, hold]
  · cases latest.get? r.reviewer with
    | none => simp [Dict.get?_insert, h]
    | some old =>
      simp only
      split_ifs
      · rfl
      · simp [Dict.get?_insert, h]

/-- **The review that is kept of an account is its latest.** -/
theorem get?_latest (reviews : List Review) (a : Account) :
    (latest reviews).get? a = latestOf? reviews a := by
  induction reviews using List.reverseRecOn with
  | nil => simp [latest, latestOf?, inOrderOf]
  | append_singleton reviews r ih =>
    rw [latest, List.foldl_append, List.foldl_cons, List.foldl_nil, get?_keepLatest,
      latestOf?_concat]
    exact ih ▸ rfl

theorem mem_entries_latest : (a, r) ∈ (latest reviews).entries ↔ latestOf? reviews a = some r := by
  rw [← Dict.get?_eq_some_iff, get?_latest]

end Review

/-- The accounts whose latest review approves. -/
def approvers (reviews : List Review) : Finset Account :=
  (reviews.map (·.reviewer)).toFinset.filter fun a => Review.approves reviews a

theorem mem_approvers {reviews : List Review} {a : Account} :
    a ∈ approvers reviews ↔ Review.approves reviews a = true := by
  refine ⟨fun h => (Finset.mem_filter.mp h).2, fun h => Finset.mem_filter.mpr ⟨?_, h⟩⟩
  obtain ⟨latest, hlatest, -⟩ := (Option.any_eq_true _ _).mp h
  obtain ⟨hmem, hreviewer⟩ := Review.of_latestOf? hlatest
  exact List.mem_toFinset.mpr (List.mem_map.mpr ⟨latest, hmem, hreviewer⟩)

theorem exists_of_mem_approvers {reviews : List Review} {a : Account} (h : a ∈ approvers reviews) :
    ∃ r ∈ reviews, r.reviewer = a :=
  List.mem_map.mp (List.mem_toFinset.mp (Finset.mem_filter.mp h).1)

namespace Approval

variable {reviews : List Review} {roleOf roleOf' : Account → Option Role}

/-- The accounts behind the approvals. -/
def accounts (reviews : List Review) : List Account :=
  ((Review.latest reviews).entries.filter fun e => e.2.verdict == .approved).map (·.1)

theorem ofReviews_eq (reviews : List Review) (roleOf : Account → Option Role) :
    ofReviews reviews roleOf = (accounts reviews).map fun a => ⟨a, roleOf a⟩ := by
  unfold ofReviews accounts Dict.values
  rw [List.filter_map, List.map_map, List.map_map]
  refine List.map_congr_left fun e he => ?_
  obtain ⟨-, hreviewer⟩ := Review.of_latestOf?
    (Review.mem_entries_latest.mp (show (e.1, e.2) ∈ _ from (List.mem_filter.mp he).1))
  simp [hreviewer]

theorem sorted_accounts (reviews : List Review) : (accounts reviews).Pairwise (· < ·) :=
  List.pairwise_map.mpr ((Review.latest reviews).sorted.filter _)

theorem nodup_accounts (reviews : List Review) : (accounts reviews).Nodup :=
  (sorted_accounts reviews).imp fun h heq => absurd (heq ▸ h) (String.lt_irrefl _)

theorem mem_accounts {a : Account} : a ∈ accounts reviews ↔ a ∈ approvers reviews := by
  rw [mem_approvers]
  simp only [accounts, List.mem_map, List.mem_filter, Prod.exists, exists_and_right,
    exists_eq_right, Review.mem_entries_latest, Review.approves, Option.any_eq_true]

theorem approvers_eq_toFinset (reviews : List Review) :
    approvers reviews = (accounts reviews).toFinset := by
  ext a
  rw [List.mem_toFinset, mem_accounts]

/-- **The approvals with a property** are as many as the approvers whose role has it. -/
theorem countP_ofReviews (p : Approval → Bool) (reviews : List Review)
    (roleOf : Account → Option Role) :
    (ofReviews reviews roleOf).countP p =
      ((approvers reviews).filter fun a => p ⟨a, roleOf a⟩).card := by
  rw [ofReviews_eq, List.countP_map, approvers_eq_toFinset, ← List.toFinset_filter,
    List.toFinset_card_of_nodup ((nodup_accounts reviews).filter _), List.countP_eq_length_filter]
  rfl

theorem countP_countsForTotal (reviews : List Review) (roleOf : Account → Option Role) :
    (ofReviews reviews roleOf).countP countsForTotal =
      ((approvers reviews).filter fun a => ∀ role ∈ roleOf a, Role.authors ≤ role).card := by
  rw [countP_ofReviews]
  congr 1
  refine Finset.filter_congr fun a _ => ?_
  rw [countsForTotal, Role.satisfies_iff]
  cases roleOf a <;> simp [Role.default, Role.le_def]

theorem countP_countsFor (reviews : List Review) (roleOf : Account → Option Role) (r : Role) :
    (ofReviews reviews roleOf).countP (countsFor r) =
      ((approvers reviews).filter fun a => ∃ role ∈ roleOf a, r ≤ role).card := by
  rw [countP_ofReviews]
  congr 1
  refine Finset.filter_congr fun a _ => ?_
  rw [countsFor]
  cases roleOf a <;> simp [Role.satisfies_iff]

theorem ofReviews_congr (h : ∀ r ∈ reviews, roleOf r.reviewer = roleOf' r.reviewer) :
    ofReviews reviews roleOf = ofReviews reviews roleOf' := by
  rw [ofReviews_eq, ofReviews_eq]
  refine List.map_congr_left fun a ha => ?_
  obtain ⟨r, hr, rfl⟩ := exists_of_mem_approvers (mem_accounts.mp ha)
  rw [h r hr]

end Approval

theorem Policy.tally_congr (p : Policy) {reviews : List Review}
    {roleOf roleOf' : Account → Option Role}
    (h : ∀ r ∈ reviews, roleOf r.reviewer = roleOf' r.reviewer) :
    p.tally reviews roleOf = p.tally reviews roleOf' := by
  rw [tally, tally, Tally.ofReviews, Tally.ofReviews, Approval.ofReviews_congr h]

end ReviewQuorum
