import ReviewQuorum.Proofs.Replay
import ReviewQuorum.Proofs.ReplyMarkers

/-! # The shape of policies

A policy that requests have led to obeys the range (`Policy.WellFormed`), and more than that: it has
no minimums, or the largest of them is the total (`Policy.Shapely`). For the count of a request that
names a role becomes both the total and the minimum of that role, and what was above it comes down
to it.

The default policy has this shape, a request of at most ten reviewers gives it to every policy
(`Policy.shapely_apply`), and the grammar reads no other requests (`Outcome.count_le_of_ofChars?`).
So every policy has it that a replay of what stands on a change request goes through
(`derived_policies_shapely`). -/

namespace ReviewQuorum

namespace Policy

/-- The largest minimum of a role, if there is one. -/
def largestMinimum? (p : Policy) : Option Nat := (p.minimums.toList.map (·.2)).max?

/-- **The policies that requests lead to**: they obey the range, and their largest minimum is the
total. -/
structure Shapely (p : Policy) : Prop extends p.WellFormed where
  largest : p.hasMinimums = false ∨ p.largestMinimum? = some p.total

theorem hasMinimums_eq_false {p : Policy} :
    p.hasMinimums = false ↔ ∀ r, p.minimums.get? r = none := by
  rw [hasMinimums, Bool.not_eq_false', RoleMap.isEmpty_iff]

theorem largestMinimum?_eq_some {p : Policy} {n : Nat} : p.largestMinimum? = some n ↔
    (∃ r, p.minimums.get? r = some n) ∧ ∀ r m, p.minimums.get? r = some m → m ≤ n := by
  rw [largestMinimum?, List.max?_eq_some_iff]
  simp only [List.mem_map, Prod.exists, RoleMap.mem_toList, exists_eq_right,
    forall_exists_index]
  exact and_congr_right fun _ => forall_comm

theorem get?_minimumsAfter (m : RoleMap Nat) {q : Request} {r : Role} (h : q.role = some r)
    (s : Role) : (minimumsAfter m q).get? s =
      (if r = s then some q.count else (m.get? s).map (min · q.count)).filter (0 < ·) := by
  rw [minimumsAfter, h]
  simp only [RoleMap.get?_filter, RoleMap.get?_insert, RoleMap.get?_map]

theorem hasMinimums_apply_of_no_role (p : Policy) {q : Request} (h : q.role = none) :
    (p.apply q).hasMinimums = false := by
  rw [hasMinimums_eq_false, apply, minimumsAfter, h]
  exact RoleMap.get?_empty

theorem getD_filter_pos (m : Option Nat) : (m.filter (0 < ·)).getD 0 = m.getD 0 := by
  cases m with
  | none => rfl
  | some n =>
    rcases Nat.eq_zero_or_pos n with rfl | hpos
    · rfl
    · simp [Option.filter_some, hpos]

/-- The minimum of a role after a request: none if the request names no role, its count if it names
this one, and otherwise what it was, brought down to the count. -/
theorem minimumFor_apply (p : Policy) (q : Request) (s : Role) : (p.apply q).minimumFor s =
    match q.role with
    | none => 0
    | some r => if r = s then q.count else min (p.minimumFor s) q.count := by
  cases hrole : q.role with
  | none =>
    have hnone := hasMinimums_eq_false.mp (p.hasMinimums_apply_of_no_role hrole) s
    rw [minimumFor, hnone]
    rfl
  | some r =>
    rw [minimumFor, apply, get?_minimumsAfter _ hrole, getD_filter_pos, minimumFor]
    by_cases hs : r = s
    · simp [hs]
    · cases p.minimums.get? s <;> simp [hs]

theorem minimum_apply {p : Policy} {q : Request} {s : Role} {m : Nat}
    (h : (p.apply q).minimums.get? s = some m) : 0 < m ∧ m ≤ q.count := by
  cases hrole : q.role with
  | none => simp [hasMinimums_eq_false.mp (p.hasMinimums_apply_of_no_role hrole) s] at h
  | some r =>
    rw [apply, get?_minimumsAfter _ hrole, Option.filter_eq_some_iff] at h
    obtain ⟨hm, hpos⟩ := h
    refine ⟨of_decide_eq_true hpos, ?_⟩
    split at hm
    · exact Nat.le_of_eq (Option.some.inj hm).symm
    · obtain ⟨n, -, rfl⟩ := Option.map_eq_some_iff.mp hm
      exact Nat.min_le_right n q.count

/-- **A request of at most ten reviewers leads every policy into the range.** -/
theorem wellFormed_apply (p : Policy) {q : Request} (h : q.count ≤ maxReviewers) :
    (p.apply q).WellFormed where
  total_le := h
  minimum_pos _ _ hm := (minimum_apply hm).1
  minimum_le _ _ hm := (minimum_apply hm).2

/-- The largest minimum after a request is that of the role it names. -/
theorem largest_apply (p : Policy) (q : Request) :
    (p.apply q).hasMinimums = false ∨ (p.apply q).largestMinimum? = some (p.apply q).total := by
  cases hrole : q.role with
  | none => exact .inl (p.hasMinimums_apply_of_no_role hrole)
  | some r =>
    rcases Nat.eq_zero_or_pos q.count with hzero | hpos
    · left
      rw [hasMinimums_eq_false]
      intro s
      cases hs : (p.apply q).minimums.get? s with
      | none => rfl
      | some m =>
        have := minimum_apply hs
        omega
    · right
      have hnamed : (p.apply q).minimums.get? r = some q.count := by
        rw [apply, get?_minimumsAfter _ hrole, if_pos rfl]
        simp [Option.filter_some, hpos]
      exact largestMinimum?_eq_some.mpr ⟨⟨r, hnamed⟩, fun s m hm => (minimum_apply hm).2⟩

theorem shapely_default : Shapely default where
  total_le := by decide
  minimum_pos r m h := by cases r <;> cases h
  minimum_le r m h := by cases r <;> cases h
  largest := .inl (by decide)

theorem shapely_apply (p : Policy) {q : Request} (h : q.count ≤ maxReviewers) :
    (p.apply q).Shapely :=
  ⟨p.wellFormed_apply h, p.largest_apply q⟩

end Policy

/-! ### What the grammar reads -/

namespace Outcome

variable {q : Request}

theorem count_le_of_ofCount {n : Int} {role : Option Role} (h : ofCount n role = .parsed q) :
    q.count ≤ maxReviewers := by
  unfold ofCount at h
  split_ifs at h with hupper hlower
  rw [← Outcome.parsed.inj h]
  exact Int.toNat_le.mpr (Int.not_lt.mp hupper)

theorem count_le_of_ofCountAndToken {n : Int} {token : Option (List Char)}
    (h : ofCountAndToken n token = .parsed q) : q.count ≤ maxReviewers := by
  unfold ofCountAndToken at h
  split at h
  · exact count_le_of_ofCount h
  · split at h
    · cases h
    · exact count_le_of_ofCount h

theorem count_le_of_ofWords {whole : List Char} {ws : List (List Char)}
    (h : ofWords whole ws = .parsed q) : q.count ≤ maxReviewers := by
  unfold ofWords at h
  split at h
  · cases h
  · split at h
    · exact count_le_of_ofCountAndToken h
    · exact count_le_of_ofCountAndToken h
    · cases h

/-- **A line asks for ten reviewers at most.** -/
theorem count_le_of_ofChars? {line : List Char} (h : ofChars? line = some (.parsed q)) :
    q.count ≤ maxReviewers := by
  unfold ofChars? at h
  split at h
  · cases h
  · exact count_le_of_ofWords (Option.some.inj h)
  · split_ifs at h
    exact count_le_of_ofWords (Option.some.inj h)

end Outcome

theorem Invocation.count_le_of_mem_commands {change : ChangeRequest} {comments : List Comment}
    {bot : Account} {c : Command} (h : c ∈ commands (extract change comments bot)) :
    c.request.count ≤ maxReviewers := by
  obtain ⟨i, hi, hc⟩ := List.mem_filterMap.mp h
  obtain ⟨q, hq, rfl⟩ := Option.map_eq_some_iff.mp hc
  have hparsed : i.outcome = .parsed q := by
    cases ho : i.outcome with
    | parsed q' => rw [ho] at hq; rw [Option.some.inj hq]
    | _ => rw [ho] at hq; cases hq
  have hline {text : String} (hl : firstLine? text = some (i.rawText, i.outcome)) :
      q.count ≤ maxReviewers := by
    obtain ⟨cs, -, ho⟩ := exists_line_of_firstLine? hl
    exact Outcome.count_le_of_ofChars? (hparsed ▸ ho)
  rcases line_of_mem_extract hi with hl | ⟨k, -, -, hl⟩
  · exact hline hl
  · exact hline hl

/-! ### Replays -/

namespace Ledger

variable {author : Account} {roleOf : Account → Option Role}

/-- Every policy that a ledger has gone through has the shape. -/
structure Shapely (l : Ledger) : Prop where
  policy : l.policy.Shapely
  rulings : ∀ r ∈ l.rulings, r.before.Shapely ∧ r.after.Shapely

/-- **One command** keeps the shape, whether it is permitted or not. -/
theorem Shapely.apply {l : Ledger} (h : l.Shapely) {c : Command}
    (hc : c.request.count ≤ maxReviewers) (permit : Policy → Policy → Permission) :
    (l.apply c permit).Shapely := by
  have hafter : (ruling l.policy c permit).after.Shapely := by
    simp only [ruling]
    cases permit l.policy (l.policy.apply c.request) with
    | allowed => exact l.policy.shapely_apply hc
    | denied reason => exact h.policy
  refine ⟨hafter, fun r hr => ?_⟩
  rcases List.mem_append.mp hr with hr | hr
  · exact h.rulings r hr
  · rw [List.mem_singleton.mp hr]
    exact ⟨h.policy, hafter⟩

theorem Shapely.foldl {l : Ledger} (h : l.Shapely) {cs : List Command}
    (hcs : ∀ c ∈ cs, c.request.count ≤ maxReviewers) :
    (cs.foldl (applyByRules author roleOf) l).Shapely := by
  induction cs generalizing l with
  | nil => exact h
  | cons c cs ih =>
    exact ih (h.apply (hcs c List.mem_cons_self) _) fun d hd => hcs d (List.mem_cons_of_mem _ hd)

theorem shapely_replay {cs : List Command} (hcs : ∀ c ∈ cs, c.request.count ≤ maxReviewers) :
    (replay .default cs author roleOf).Shapely := by
  have hstart : (start .default).Shapely :=
    ⟨Policy.shapely_default, fun r hr => absurd hr List.not_mem_nil⟩
  have hordered : ∀ c ∈ Command.inOrder cs, c.request.count ≤ maxReviewers := by
    intro c hc
    exact hcs c ((Command.inOrder_perm cs).mem_iff.mp hc)
  exact hstart.foldl hordered

end Ledger

/-- **Every policy derived from text is well formed**, and its largest minimum is its total; and a
request of at most ten reviewers leads every policy into the range, whatever it was. -/
theorem derived_policies_shapely (change : ChangeRequest) (comments : List Comment)
    (bot author : Account) (roleOf : Account → Option Role) :
    let l := Ledger.replay .default (Invocation.commands (Invocation.extract change comments bot))
      author roleOf
    l.policy.Shapely ∧ (∀ r ∈ l.rulings, r.before.Shapely ∧ r.after.Shapely) ∧
      ∀ (p : Policy) (q : Request), q.count ≤ maxReviewers → (p.apply q).WellFormed := by
  intro l
  have hl : l.Shapely := Ledger.shapely_replay fun c => Invocation.count_le_of_mem_commands
  exact ⟨hl.policy, hl.rulings, fun p q hq => p.wellFormed_apply hq⟩

/-- Alice asks for three reviewers and bob for two leads. A policy from a file that asks for forty
leads is brought down to ten. -/
theorem derived_policies_shapely_alice :
    let change : ChangeRequest := ⟨"1", "alice", "/reviewers 3 reviewers", ⟨0⟩, Dict.empty⟩
    let comments : List Comment := [⟨"c1", "bob", "/reviewers 2 lead", ⟨⟨1⟩, 1⟩⟩]
    let l := Ledger.replay .default
      (Invocation.commands (Invocation.extract change comments "revgate-bot")) "alice"
      (RoleTable.empty.insert "bob" .reviewers).roleOf
    let p : Policy := ⟨99, { lead := some 40, authors := some 0 }⟩
    (l.rulings.map (·.after) =
      [⟨3, { reviewers := some 3 }⟩, ⟨2, { reviewers := some 2, lead := some 2 }⟩]) ∧
    (∀ r ∈ l.rulings, r.before.Shapely ∧ r.after.Shapely) ∧
    (10 ≤ maxReviewers ∧ (p.apply ⟨10, some .reviewers⟩).WellFormed) := by
  intro change comments l p
  obtain ⟨-, hrulings, happly⟩ := derived_policies_shapely change comments "revgate-bot" "alice"
    (RoleTable.empty.insert "bob" .reviewers).roleOf
  refine ⟨?_, hrulings, by decide, happly p ⟨10, some .reviewers⟩ (by decide)⟩
  simp only [l, Ledger.replay]
  rw [Command.inOrder_of_pairwise (by decide +kernel)]
  decide +kernel

end ReviewQuorum
