import ReviewQuorum.Gate
import ReviewQuorum.Proofs.Replay

/-! # Readiness and the order of policies

A tally has a bucket for every role with a minimum, so readiness can be said without it: enough
approvals count for the total, and for every role enough count for its minimum
(`readiness_ready_iff`). A change request that is ready under a policy is therefore ready under
every policy below it, although the two tallies have different buckets (`ready_of_le`). With what
replays do to policies this says that accounts without standing cannot make a change request ready
by commands (`ready_without_later_commands`). -/

namespace ReviewQuorum

namespace RoleMap

variable {α : Type}

theorem get?_foldl_insert (es : List (Role × α)) (m : RoleMap α) (r : Role)
    (hr : ∀ e ∈ es, e.1 ≠ r) :
    (es.foldl (fun m e => m.insert e.1 e.2) m).get? r = m.get? r := by
  induction es generalizing m with
  | nil => rfl
  | cons e es ih =>
    rw [List.foldl_cons, ih _ fun x hx => hr x (List.mem_cons_of_mem _ hx), get?_insert,
      if_neg (hr e List.mem_cons_self)]

theorem get?_ofList_map (f : Role → α) {roles : List Role} {r : Role} (h : r ∈ roles) :
    (ofList (roles.map fun r => (r, f r))).get? r = some (f r) := by
  unfold ofList
  generalize empty = m
  induction roles generalizing m with
  | nil => simp at h
  | cons s roles ih =>
    rw [List.map_cons, List.foldl_cons]
    by_cases hr : r ∈ roles
    · exact ih hr _
    · obtain rfl : r = s := (List.mem_cons.mp h).resolve_right hr
      rw [get?_foldl_insert _ _ _ fun e he => ?_, get?_insert, if_pos rfl]
      obtain ⟨t, ht, rfl⟩ := List.mem_map.mp he
      exact fun heq => hr (heq ▸ ht)

theorem get?_ofList_map_eq (f : Role → α) (roles : List Role) (r : Role) :
    (ofList (roles.map fun r => (r, f r))).get? r = if r ∈ roles then some (f r) else none := by
  split_ifs with h
  · exact get?_ofList_map f h
  · rw [ofList, get?_foldl_insert _ _ _ fun e he => ?_, get?_empty]
    obtain ⟨s, hs, rfl⟩ := List.mem_map.mp he
    exact fun heq => h (heq ▸ hs)

theorem mem_keys {m : RoleMap α} {r : Role} : r ∈ m.keys ↔ ∃ v, m.get? r = some v := by
  simp only [keys, List.mem_map, Prod.exists, exists_and_right, exists_eq_right, mem_toList]

end RoleMap

namespace Policy

variable {p q : Policy} {reviews : List Review} {roleOf : Account → Option Role}

theorem approvalsOf_tally {r : Role} {m : Nat} (h : p.minimums.get? r = some m) :
    (p.tally reviews roleOf).approvalsOf r =
      Tally.word ((Approval.ofReviews reviews roleOf).countP (Approval.countsFor r)) := by
  unfold tally Tally.ofReviews Tally.ofApprovals Tally.approvalsOf
  rw [RoleMap.get?_ofList_map (fun r => Tally.word ((Approval.ofReviews reviews roleOf).countP
    (Approval.countsFor r))) (RoleMap.mem_keys.mpr ⟨m, h⟩)]
  rfl

theorem unmetRoles_tally_eq_nil :
    Readiness.unmetRoles p (p.tally reviews roleOf) = [] ↔
      ∀ r, p.minimumFor r ≤
        Tally.word ((Approval.ofReviews reviews roleOf).countP (Approval.countsFor r)) := by
  simp only [Readiness.unmetRoles, List.filter_eq_nil_iff, List.forall_mem_map, Prod.forall,
    RoleMap.mem_toList, Readiness.roleRequirement, Requirement.isMet, Bool.not_eq_true',
    decide_eq_false_iff_not, Nat.not_le, Nat.not_lt]
  constructor
  · intro h r
    unfold minimumFor
    cases hm : p.minimums.get? r with
    | none => exact Nat.zero_le _
    | some m =>
      have := h r m hm
      rwa [approvalsOf_tally hm] at this
  · intro h r m hm
    have := h r
    rw [approvalsOf_tally hm]
    rwa [minimumFor, hm, Option.getD_some] at this

/-- **Readiness without the tally.** -/
theorem readiness_ready_iff : (p.readiness reviews roleOf).ready = true ↔
    p.total ≤ Tally.word ((Approval.ofReviews reviews roleOf).countP Approval.countsForTotal) ∧
      ∀ r, p.minimumFor r ≤
        Tally.word ((Approval.ofReviews reviews roleOf).countP (Approval.countsFor r)) := by
  rw [← unmetRoles_tally_eq_nil]
  simp only [readiness, Readiness.evaluate, Bool.and_eq_true, List.isEmpty_iff, Requirement.isMet,
    decide_eq_true_eq]
  rfl

/-- **Ready under a policy, ready under every policy below it.** -/
theorem ready_of_le (h : p ≤ q) (hq : (q.readiness reviews roleOf).ready = true) :
    (p.readiness reviews roleOf).ready = true := by
  rw [readiness_ready_iff] at hq ⊢
  exact ⟨Nat.le_trans h.1 hq.1, fun r => Nat.le_trans (h.2 r) (hq.2 r)⟩

end Policy

/-! ### Commands of accounts that cannot lower a policy -/

/-- **Later commands of accounts that cannot lower a policy never make a change request ready**: the
policy they leave is at or above the earlier one, in the total and for every role, and what is ready
with them is ready without them. -/
theorem ready_without_later_commands (reviews : List Review) (author : Account)
    (roleOf : Account → Option Role) (h e : List Command)
    (hsep : ∀ a ∈ h, ∀ b ∈ e, a.notAfter b = true)
    (hno : ∀ c ∈ e, CannotLower author roleOf c.actor) :
    let before := (Ledger.replay .default h author roleOf).policy
    let after := (Ledger.replay .default (h ++ e) author roleOf).policy
    (before.total ≤ after.total ∧ ∀ r, before.minimumFor r ≤ after.minimumFor r) ∧
      ((after.readiness reviews roleOf).ready = true →
        (before.readiness reviews roleOf).ready = true) := by
  have hle := Ledger.le_replay_append .default hsep hno
  exact ⟨Policy.le_iff.mp hle, Policy.ready_of_le hle⟩

/-- The standing of a committer, a reviewer and the lead. -/
def standingOfThree : Account → Option Role
  | "com" => some .committers
  | "rev" => some .reviewers
  | "lead" => some .lead
  | _ => none

/-- A request in a comment with a number that is also its instant. -/
def askedAt (n : Nat) (actor : Account) (request : Request) : Command :=
  ⟨actor, request, "/reviewers", .comment "c", ⟨⟨n⟩, n⟩⟩

/-- The author has asked for two committers. -/
def twoCommitters : List Command := [askedAt 1 "aut" ⟨2, some .committers⟩]

/-- The author and a committer try to lower that; the committer then asks for two reviewers. -/
def attemptsToLower : List Command :=
  [askedAt 2 "aut" ⟨1, none⟩, askedAt 3 "com" ⟨1, none⟩, askedAt 4 "com" ⟨2, some .reviewers⟩]

/-- A reviewer and the lead approve. -/
def twoApprovals : List Review :=
  [⟨"rev", .approved, ⟨⟨1⟩, 1⟩⟩, ⟨"lead", .approved, ⟨⟨1⟩, 2⟩⟩]

/-- Ready after the attempts, and ready before them. -/
theorem ready_without_attemptsToLower :
    ((∀ a ∈ twoCommitters, ∀ b ∈ attemptsToLower, a.notAfter b = true) ∧
      ∀ c ∈ attemptsToLower, CannotLower "aut" standingOfThree c.actor) ∧
    ((Ledger.replay .default (twoCommitters ++ attemptsToLower) "aut"
      standingOfThree).policy.readiness twoApprovals standingOfThree).ready = true ∧
    ((Ledger.replay .default twoCommitters "aut"
      standingOfThree).policy.readiness twoApprovals standingOfThree).ready = true := by
  have hsep : ∀ a ∈ twoCommitters, ∀ b ∈ attemptsToLower, a.notAfter b = true := by decide
  have hno : ∀ c ∈ attemptsToLower, CannotLower "aut" standingOfThree c.actor := by decide
  have hpolicy : (Ledger.replay .default (twoCommitters ++ attemptsToLower) "aut"
      standingOfThree).policy = ⟨2, { committers := some 2, reviewers := some 2 }⟩ := by
    rw [Ledger.replay, Command.inOrder_of_pairwise (by decide)]
    decide +kernel
  have hready : ((Ledger.replay .default (twoCommitters ++ attemptsToLower) "aut"
      standingOfThree).policy.readiness twoApprovals standingOfThree).ready = true := by
    rw [hpolicy, Policy.readiness_ready_iff]
    exact ⟨by decide +kernel, fun r => by cases r <;> decide +kernel⟩
  exact ⟨⟨hsep, hno⟩, hready, (ready_without_later_commands twoApprovals "aut" standingOfThree
    twoCommitters attemptsToLower hsep hno).2 hready⟩

end ReviewQuorum
