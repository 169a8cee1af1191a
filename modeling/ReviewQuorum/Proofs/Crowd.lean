import Mathlib.Algebra.Group.Nat.Defs
import ReviewQuorum.Proofs.Decimals
import ReviewQuorum.Proofs.LatestReview

/-! # Counters and crowds

The counters of a tally have 32 bits. They are right as long as fewer than `2 ^ 32` accounts approve
(`Tally.word_card_filter`), and otherwise they may show anything from zero on, but never more than
was counted (`Tally.word_le`).

A `crowd` has any number of accounts that approve, one review each (`card_approvers_crowd`). It
shows what becomes of a change request when a counter overflows (`ready_crowd_iff`). -/

namespace ReviewQuorum

/-- A counter is right about a part of less than `2 ^ 32` accounts. -/
theorem Tally.word_card_filter {accounts : Finset Account} (h : accounts.card < UInt32.size)
    (P : Account → Prop) [DecidablePred P] :
    word (accounts.filter P).card = (accounts.filter P).card :=
  word_of_lt (lt_of_le_of_lt (Finset.card_filter_le _ _) h)

namespace Review

variable {reviews : List Review} {r : Review}

/-- **A later approval** adds its account to those that approve. -/
theorem approvers_concat (hverdict : r.verdict = .approved)
    (hlatest : ∀ r' ∈ reviews, r'.reviewer = r.reviewer → r'.moment.le r.moment = true) :
    approvers (reviews ++ [r]) = insert r.reviewer (approvers reviews) := by
  ext a
  rw [mem_approvers, Finset.mem_insert, mem_approvers, approves, latestOf?_concat]
  split_ifs with ha
  · have hkept : (latestOf? reviews a).elim r r.orLater = r := by
      cases hold : latestOf? reviews a with
      | none => rfl
      | some old =>
        obtain ⟨hmem, hreviewer⟩ := of_latestOf? hold
        exact if_pos (hlatest old hmem (hreviewer.trans ha.symm))
    rw [hkept]
    simp [hverdict, ha]
  · rw [← approves]
    simp [Ne.symm ha]

end Review

/-! ### Crowds -/

/-- The account with a number in a crowd. -/
def crowdMember (n : Nat) : Account := "a" ++ Decimal.ofNat n

/-- The approval of an account in a crowd, at the moment of its number. -/
def crowdReview (n : Nat) : Review := ⟨crowdMember n, .approved, ⟨⟨n⟩, n⟩⟩

/-- The approvals of the first `n` accounts of a crowd. -/
def crowd (n : Nat) : List Review := (List.range n).map crowdReview

theorem crowdMember_injective : Function.Injective crowdMember := fun _ _ h =>
  Decimal.ofNat_injective ((String.append_right_inj "a").mp h)

theorem crowd_succ (n : Nat) : crowd (n + 1) = crowd n ++ [crowdReview n] := by
  rw [crowd, crowd, List.range_succ, List.map_append, List.map_singleton]

theorem exists_of_mem_crowd {n : Nat} {r : Review} (h : r ∈ crowd n) :
    ∃ i < n, r = crowdReview i := by
  obtain ⟨i, hi, rfl⟩ := List.mem_map.mp h
  exact ⟨i, List.mem_range.mp hi, rfl⟩

theorem reviewer_ne_of_mem_crowd {n : Nat} {r : Review} (h : r ∈ crowd n) :
    r.reviewer ≠ crowdMember n := by
  obtain ⟨i, hi, rfl⟩ := exists_of_mem_crowd h
  exact fun heq => (Nat.ne_of_lt hi) (crowdMember_injective heq)

theorem approvers_crowd_succ (n : Nat) :
    approvers (crowd (n + 1)) = insert (crowdMember n) (approvers (crowd n)) := by
  rw [crowd_succ]
  exact Review.approvers_concat rfl fun r hr heq => absurd heq (reviewer_ne_of_mem_crowd hr)

theorem mem_approvers_of_mem_crowd {n : Nat} {r : Review} (h : r ∈ crowd n) :
    r.reviewer ∈ approvers (crowd n) := by
  induction n with
  | zero => cases h
  | succ n ih =>
    rw [approvers_crowd_succ, Finset.mem_insert]
    rw [crowd_succ, List.mem_append, List.mem_singleton] at h
    rcases h with h | rfl
    · exact .inr (ih h)
    · exact .inl rfl

/-- **As many accounts approve as a crowd has members.** -/
theorem card_approvers_crowd (n : Nat) : (approvers (crowd n)).card = n := by
  induction n with
  | zero => rfl
  | succ n ih =>
    have hnew : crowdMember n ∉ approvers (crowd n) := fun hmem => by
      obtain ⟨r, hr, heq⟩ := exists_of_mem_approvers hmem
      exact reviewer_ne_of_mem_crowd hr heq
    rw [approvers_crowd_succ, Finset.card_insert_of_notMem hnew, ih]

/-- **What a counter shows of a crowd.** All its members are unknown or of standing `authors` at
least, and one approval is asked for. -/
theorem ready_crowd_iff {roleOf : Account → Option Role}
    (hroles : ∀ a, ∀ role ∈ roleOf a, Role.authors ≤ role) (n : Nat) :
    (Policy.default.readiness (crowd n) roleOf).ready = true ↔ 1 ≤ Tally.word n := by
  rw [Policy.readiness_ready_iff, Approval.countP_countsForTotal,
    Finset.filter_true_of_mem fun a _ => hroles a, card_approvers_crowd]
  exact and_iff_left fun r => by cases r <;> exact Nat.zero_le _

end ReviewQuorum
