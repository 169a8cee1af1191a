import Mathlib.Data.List.Perm.Basic
import Mathlib.Tactic.SplitIfs
import ReviewQuorum.Forge

/-! # The seconds that are left

Every comment and every review takes the next second of the clock after the latest activity, and the
clock stops. What an account writes is what it would write on a clock that never stops, as long as a
second is left (`Snapshot.nextComment?_eq`, `Snapshot.nextReview?_eq`), and a comment takes one of
those that are left (`Snapshot.secondsLeft_commented`). -/

namespace ReviewQuorum

namespace Timestamp

/-- The seconds of the clock after an instant. -/
def secondsLeft (t : Timestamp) : Nat := (lastSecond - t.second).toNat

theorem nextSecond?_eq (t : Timestamp) :
    t.nextSecond? = if 0 < t.secondsLeft then some t.nextSecond else none := by
  unfold nextSecond? secondsLeft
  exact if_congr (by omega) rfl rfl

theorem second_nextSecond (t : Timestamp) : t.nextSecond.second = t.second + 1 := by
  unfold nextSecond
  split <;> simp only [second, nanos, ticksPerSecond, nanosPerSecond] at * <;> omega

theorem secondsLeft_nextSecond (t : Timestamp) :
    t.nextSecond.secondsLeft = t.secondsLeft - 1 := by
  rw [secondsLeft, secondsLeft, second_nextSecond]
  omega

/-- The later one of instants does not depend on their order. -/
instance max_rightCommutative : RightCommutative Timestamp.max where
  right_comm t u v := by
    have hticks : Max.max (Max.max t.ticks u.ticks) v.ticks =
        Max.max (Max.max t.ticks v.ticks) u.ticks := by omega
    exact congrArg Timestamp.mk hticks

theorem ticks_le_foldl_max (ts : List Timestamp) (t : Timestamp) :
    t.ticks ≤ (ts.foldl Timestamp.max t).ticks ∧
      ∀ u ∈ ts, u.ticks ≤ (ts.foldl Timestamp.max t).ticks := by
  induction ts generalizing t with
  | nil => simp
  | cons u ts ih =>
    obtain ⟨h1, h2⟩ := ih (t.max u)
    have hmax : (t.max u).ticks = Max.max t.ticks u.ticks := rfl
    rw [List.foldl_cons, List.forall_mem_cons]
    exact ⟨by omega, by omega, h2⟩

end Timestamp

namespace Snapshot

/-- The seconds of the clock after the latest activity. -/
def secondsLeft (s : Snapshot) : Nat := s.lastActivity.secondsLeft

/-- The next comment of an account, on a clock that never stops. -/
def nextComment (s : Snapshot) (author : Account) (body : String) : Comment :=
  s.commentAt s.lastActivity.nextSecond author body

/-- The snapshot with one more comment, on a clock that never stops. -/
def commented (s : Snapshot) (author : Account) (body : String) : Snapshot :=
  s.addComment (s.nextComment author body)

/-- The next review of an account, on a clock that never stops. -/
def nextReview (s : Snapshot) (reviewer : Account) (verdict : Verdict) : Review :=
  ⟨reviewer, verdict, ⟨s.lastActivity.nextSecond, s.reviews.length + 1⟩⟩

variable (s : Snapshot) (author : Account) (body : String)

@[simp] theorem author_nextComment : (s.nextComment author body).author = author := rfl

@[simp] theorem body_nextComment : (s.nextComment author body).body = body := rfl

@[simp] theorem change_commented : (s.commented author body).change = s.change := rfl

@[simp] theorem reviews_commented : (s.commented author body).reviews = s.reviews := rfl

@[simp] theorem comments_commented :
    (s.commented author body).comments = s.comments ++ [s.nextComment author body] := rfl

/-- **As long as a second is left, an account can write a comment.** -/
theorem nextComment?_eq : s.nextComment? author body =
    if 0 < s.secondsLeft then some (s.nextComment author body) else none := by
  rw [nextComment?, nextTimestamp?, Timestamp.nextSecond?_eq, secondsLeft]
  split_ifs <;> rfl

theorem comment_eq : s.comment author body =
    if 0 < s.secondsLeft then s.commented author body else s := by
  rw [comment, nextComment?_eq]
  split_ifs <;> rfl

/-- **As long as a second is left, an account can give a review.** -/
theorem nextReview?_eq (verdict : Verdict) : s.nextReview? author verdict =
    if 0 < s.secondsLeft then some (s.nextReview author verdict) else none := by
  rw [nextReview?, nextTimestamp?, Timestamp.nextSecond?_eq, secondsLeft]
  split_ifs <;> rfl

theorem review_eq (verdict : Verdict) : s.review author verdict =
    if 0 < s.secondsLeft then s.addReview (s.nextReview author verdict) else s := by
  rw [review, nextReview?_eq]
  split_ifs <;> rfl

theorem change_comment : (s.comment author body).change = s.change := by
  rw [comment_eq]
  split_ifs <;> rfl

theorem change_review (verdict : Verdict) : (s.review author verdict).change = s.change := by
  rw [review_eq]
  split_ifs <;> rfl

theorem ticks_lt_nextComment {c : Comment} (h : c ∈ s.comments) :
    c.moment.timestamp.ticks < (s.nextComment author body).moment.timestamp.ticks := by
  refine Int.lt_of_le_of_lt ?_ (Timestamp.ticks_lt_nextSecond _)
  exact (Timestamp.ticks_le_foldl_max _ _).2 _ (List.mem_append_left _ (List.mem_map_of_mem h))

theorem lastActivity_commented :
    (s.commented author body).lastActivity = s.lastActivity.nextSecond := by
  have hperm : ((s.commented author body).comments.map (·.moment.timestamp) ++
      s.reviews.map (·.moment.timestamp)).Perm
      (s.comments.map (·.moment.timestamp) ++ s.reviews.map (·.moment.timestamp) ++
        [s.lastActivity.nextSecond]) := by
    simp only [commented, addComment, List.map_append, List.append_assoc]
    exact List.Perm.append_left _ List.perm_append_comm
  have hlast : (s.commented author body).lastActivity =
      s.lastActivity.max s.lastActivity.nextSecond := by
    rw [lastActivity, show (s.commented author body).reviews = s.reviews from rfl,
      hperm.foldl_eq, List.foldl_append]
    rfl
  have hlt := s.lastActivity.ticks_lt_nextSecond
  rw [hlast, Timestamp.max, Int.max_eq_right (by omega)]

/-- **A comment takes a second.** -/
theorem secondsLeft_commented : (s.commented author body).secondsLeft = s.secondsLeft - 1 := by
  rw [secondsLeft, lastActivity_commented, Timestamp.secondsLeft_nextSecond, secondsLeft]

end Snapshot

end ReviewQuorum
