import Mathlib.Data.List.Induction
import Mathlib.Data.Prod.Lex
import ReviewQuorum.Proofs.IdleCommands
import ReviewQuorum.Proofs.PolicyShape
import ReviewQuorum.Proofs.Since

/-! # The policy that a history leaves, told from its end

A replay takes a history from its beginning and carries commands out one by one. What it comes to
can be told from the other end, without any policy in between (`Policy.LeftBy`). The total is the
count of the last command that was carried out. A role has a minimum if it `Stands`: it is named
after the last command that names no role; its minimum is then the smallest count from the last
command on that names it.

Each request keeps this description right (`Policy.LeftBy.apply`), so it holds at the end, and no
two policies fit it (`Policy.LeftBy.unique`). -/

namespace ReviewQuorum

/-! ### Requests in a row -/

namespace Request

/-- A role stands after requests in a row: one of them names it, and all that follow it name roles.
-/
def Stands (qs : List Request) (r : Role) : Prop :=
  HappenedSince (·.role = some r) (·.role = none) qs

/-- **The last request that names a role**, with the requests after it. -/
def LastNaming (r : Role) : List Request → Request → List Request → Prop :=
  Since (·.role = some r) (·.role = some r)

/-- The smallest count of requests in a row. -/
def smallestCount? (qs : List Request) : Option Nat := (qs.map (·.count)).min?

theorem smallestCount?_concat (q : Request) (rest : List Request) (c : Request) :
    smallestCount? (q :: (rest ++ [c])) =
      (smallestCount? (q :: rest)).map (min · c.count) := by
  simp only [smallestCount?, List.map_cons, List.map_append, List.map_nil, List.min?_cons',
    List.foldl_append, List.foldl_cons, List.foldl_nil, Option.map_some]

end Request

/-! ### The closed form -/

namespace Policy

open Request

/-- **The policy that requests in a row leave**, where they begin with the default one. -/
structure LeftBy (qs : List Request) (p : Policy) : Prop where
  empty : qs = [] → p = default
  total : ∀ q, qs.getLast? = some q → p.total = q.count
  unnamed : ∀ r, ¬ Stands qs r → p.minimumFor r = 0
  named : ∀ r, Stands qs r → ∀ q rest, LastNaming r qs q rest →
    smallestCount? (q :: rest) = some (p.minimumFor r)
  stored : ∀ r, p.minimums.get? r ≠ some 0

theorem leftBy_default : LeftBy [] default where
  empty _ := rfl
  total q h := by simp at h
  unnamed r _ := by cases r <;> rfl
  named r h := absurd h not_happenedSince_nil
  stored r := by cases r <;> simp [default, RoleMap.get?]

/-- **One more request.** -/
theorem LeftBy.apply {qs : List Request} {p : Policy} (h : LeftBy qs p) (c : Request) :
    LeftBy (qs ++ [c]) (p.apply c) where
  empty hnil := by simp at hnil
  total q hq := by
    rw [List.getLast?_concat] at hq
    rw [← Option.some.inj hq]
    rfl
  unnamed r hr := by
    rw [Stands, happenedSince_concat, not_or, not_and] at hr
    obtain ⟨hother, hbefore⟩ := hr
    rw [minimumFor_apply]
    cases hc : c.role with
    | none => rfl
    | some s =>
      have hne : s ≠ r := fun hs => hother (by rw [hc, hs])
      have hzero : p.minimumFor r = 0 := h.unnamed r (hbefore (by simp [hc]))
      simp [hne, hzero]
  named r hr q rest hlast := by
    rw [minimumFor_apply]
    rcases since_concat.mp hlast with ⟨hc, rfl, rfl⟩ | ⟨hc, rest', rfl, hlast'⟩
    · simp [hc, smallestCount?]
    · obtain ⟨hrole, hstands⟩ := (happenedSince_concat.mp hr).resolve_left hc
      obtain ⟨s, hs⟩ := Option.ne_none_iff_exists'.mp hrole
      have hne : s ≠ r := fun hsr => hc (by rw [hs, hsr])
      rw [smallestCount?_concat, h.named r hstands q rest' hlast']
      simp [hs, hne]
  stored r hr := absurd (minimum_apply hr).1 (Nat.lt_irrefl 0)

theorem leftBy_foldl_apply (qs : List Request) : LeftBy qs (qs.foldl Policy.apply default) := by
  induction qs using List.reverseRecOn with
  | nil => exact leftBy_default
  | append_singleton qs c ih =>
    rw [List.foldl_append]
    exact ih.apply c

/-- **Requests in a row leave one policy.** -/
theorem LeftBy.unique {qs : List Request} {p p' : Policy} (h : LeftBy qs p) (h' : LeftBy qs p') :
    p = p' := by
  rcases qs.eq_nil_or_concat with rfl | ⟨init, c, hqs⟩
  · rw [h.empty rfl, h'.empty rfl]
  · have hlast : qs.getLast? = some c := by rw [hqs, List.concat_eq_append, List.getLast?_concat]
    refine ext_minimumFor (positive_iff.mpr h.stored) (positive_iff.mpr h'.stored) ?_ fun r => ?_
    · rw [h.total c hlast, h'.total c hlast]
    · by_cases hr : Stands qs r
      · obtain ⟨q, rest, hnamed⟩ := hr.last
        have hsame := (h.named r hr q rest hnamed).symm.trans (h'.named r hr q rest hnamed)
        exact Option.some.inj hsame
      · rw [h.unnamed r hr, h'.unnamed r hr]

/-- Three leads are asked for, then one committer, then two reviewers: the leads come down to one,
and the total is that of the last request. -/
example : [⟨3, some .lead⟩, ⟨1, some .committers⟩, ⟨2, some .reviewers⟩].foldl apply default =
    ⟨2, { committers := some 1, reviewers := some 2, lead := some 1 }⟩ := by decide

end Policy

/-! ### What a replay carries out -/

namespace Command

/-- Where a command is taken: by the rank of its source, its instant and its sequence number, and by
its place in the history. -/
def orderKey (c : Command × Nat) : Nat ×ₗ Int ×ₗ Nat ×ₗ Nat :=
  toLex (c.1.source.rank, toLex (c.1.moment.timestamp.ticks, toLex (c.1.moment.sequence, c.2)))

/-- What is sorted before a command with another place has the smaller key. -/
theorem orderKey_lt {a b : Command × Nat} (h : List.zipIdxLE notAfter a b = true)
    (hplace : a.2 ≠ b.2) : orderKey a < orderKey b := by
  simp only [orderKey, Prod.Lex.toLex_lt_toLex]
  rw [List.zipIdxLE] at h
  split_ifs at h with hab hba
  · -- the commands tie, so their places decide
    have hle : a.2 ≤ b.2 := of_decide_eq_true h
    rw [notAfter_iff, Moment.le_iff] at hab hba
    omega
  · rw [notAfter_iff, Moment.le_iff] at hab hba
    omega

/-- **Commands are taken in the order of their keys.** -/
theorem exists_placed (cs : List Command) : ∃ placed : List (Command × Nat),
    placed.Perm cs.zipIdx ∧ placed.Pairwise (fun a b => orderKey a < orderKey b) ∧
      inOrder cs = placed.map (·.1) := by
  let placed := cs.zipIdx.mergeSort (List.zipIdxLE notAfter)
  have hperm : placed.Perm cs.zipIdx := List.mergeSort_perm _ _
  have hsorted : placed.Pairwise fun a b => List.zipIdxLE notAfter a b = true :=
    List.pairwise_mergeSort (List.zipIdxLE_trans notAfter_trans)
      (List.zipIdxLE_total notAfter_total) _
  have hnodup : (placed.map Prod.snd).Nodup := by
    rw [(hperm.map Prod.snd).nodup_iff, List.zipIdx_map_snd]
    exact List.nodup_range'
  have hplaces : placed.Pairwise fun a b => a.2 ≠ b.2 := List.pairwise_map.mp hnodup
  refine ⟨placed, hperm, ?_, List.mergeSort_zipIdx.symm⟩
  exact (hsorted.and hplaces).imp fun {a b} h => orderKey_lt h.1 h.2

end Command

namespace Ledger

variable {author : Account} {roleOf : Account → Option Role}

/-- The commands that a replay carries out, in the order in which it takes them. -/
def carriedOut (initial : Policy) (cs : List Command) (author : Account)
    (roleOf : Account → Option Role) : List Command :=
  (((Command.inOrder cs).zip (replay initial cs author roleOf).rulings).filter
    fun x => x.2.isApplied).map (·.1)

theorem isApplied_ruleOn {p : Policy} {c : Command} :
    (ruleOn author roleOf p c).isApplied = true ↔
      (actorOf author roleOf c).permission p (p.apply c.request) = .allowed := by
  simp only [ruleOn, ruling, Ruling.isApplied]
  cases (actorOf author roleOf c).permission p (p.apply c.request) <;> simp [settle]

/-- **Commands in a row** lead to where those of them lead that are carried out. -/
theorem foldl_policyAfter (p : Policy) (cs : List Command) :
    cs.foldl (policyAfter author roleOf) p =
      ((((cs.zip (ruleOnAll author roleOf p cs)).filter fun x => x.2.isApplied).map (·.1)).map
        (·.request)).foldl Policy.apply p := by
  induction cs generalizing p with
  | nil => rfl
  | cons c cs ih =>
    rw [List.foldl_cons, ih, ruleOnAll, List.zip_cons_cons, List.filter_cons]
    by_cases happlied : (ruleOn author roleOf p c).isApplied = true
    · have hafter : policyAfter author roleOf p c = p.apply c.request :=
        if_pos (isApplied_ruleOn.mp happlied)
      rw [if_pos happlied, hafter]
      rfl
    · have hafter : policyAfter author roleOf p c = p :=
        if_neg fun hallowed => happlied (isApplied_ruleOn.mpr hallowed)
      rw [if_neg happlied, hafter]

theorem policy_replay_eq_foldl (initial : Policy) (cs : List Command) :
    (replay initial cs author roleOf).policy =
      ((carriedOut initial cs author roleOf).map (·.request)).foldl Policy.apply initial := by
  rw [policy_replay, foldl_policyAfter, carriedOut, rulings_replay]

end Ledger

/-- **The policy of a history in closed form.** Commands are taken by rank, instant and sequence
number, and in the order of the history where these tie. A replay makes one ruling for each. From
the default policy it comes to the policy that fits the description of what the commands leave that
it has carried out, and to no other. -/
theorem replay_closed_form (cs : List Command) (author : Account)
    (roleOf : Account → Option Role) :
    (∃ placed : List (Command × Nat), placed.Perm cs.zipIdx ∧
      placed.Pairwise (fun a b => Command.orderKey a < Command.orderKey b) ∧
      Command.inOrder cs = placed.map (·.1)) ∧
    (∀ initial, (Ledger.replay initial cs author roleOf).rulings.length = cs.length) ∧
    ∀ p, (Ledger.replay .default cs author roleOf).policy = p ↔
      Policy.LeftBy ((Ledger.carriedOut .default cs author roleOf).map (·.request)) p := by
  refine ⟨Command.exists_placed cs, fun initial => Ledger.length_rulings_replay initial cs,
    fun p => ?_⟩
  have hleft := Policy.leftBy_foldl_apply
    ((Ledger.carriedOut .default cs author roleOf).map (·.request))
  rw [Ledger.policy_replay_eq_foldl]
  constructor
  · rintro rfl
    exact hleft
  · exact fun h => hleft.unique h

end ReviewQuorum
