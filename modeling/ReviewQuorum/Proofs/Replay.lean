import ReviewQuorum.Ledger
import ReviewQuorum.Proofs.PolicyOrder
import ReviewQuorum.Proofs.StableOrder

/-! # Replays in pieces

A replay of a history and of commands that come after all of it goes on where the replay of the
history alone has ended (`replay_append`). If the accounts behind the later commands cannot lower a
policy, the policy they leave is at or above the one they found (`le_replay_append`): each command
that is carried out goes up, and a refused one changes nothing. Whoever gives them, the rulings on
the earlier ones stay and come first (`rulings_prefix_replay`). -/

namespace ReviewQuorum

namespace Ledger

variable {author : Account} {roleOf roleOf' : Account → Option Role}

theorem policy_apply (l : Ledger) (c : Command) (permit : Policy → Policy → Permission) :
    (l.apply c permit).policy =
      if permit l.policy (l.policy.apply c.request) = .allowed then l.policy.apply c.request
      else l.policy := by
  simp only [apply, ruling]
  cases permit l.policy (l.policy.apply c.request) <;> simp [settle]

theorem replay_congr {initial : Policy} {cs : List Command}
    (h : ∀ c ∈ cs, roleOf c.actor = roleOf' c.actor) :
    replay initial cs author roleOf = replay initial cs author roleOf' := by
  have hstep : ∀ (ds : List Command) (l : Ledger), (∀ c ∈ ds, roleOf c.actor = roleOf' c.actor) →
      ds.foldl (applyByRules author roleOf) l = ds.foldl (applyByRules author roleOf') l := by
    intro ds
    induction ds with
    | nil => exact fun _ _ => rfl
    | cons c ds ih =>
      intro l hds
      rw [List.foldl_cons, List.foldl_cons, applyByRules, applyByRules, actorOf, actorOf,
        hds c List.mem_cons_self]
      exact ih _ fun d hd => hds d (List.mem_cons_of_mem _ hd)
  exact hstep _ _ fun c hc => h c ((Command.inOrder_perm cs).mem_iff.mp hc)

/-- **One command** of an account that cannot lower the policy. -/
theorem le_applyByRules (l : Ledger) {c : Command} (hc : CannotLower author roleOf c.actor) :
    l.policy ≤ (l.applyByRules author roleOf c).policy := by
  rw [applyByRules, policy_apply]
  split_ifs with h
  · exact Actor.le_of_allowed h (hc.imp_left fun he => by simp [actorOf, he])
  · exact le_refl _

theorem le_foldl_applyByRules (cs : List Command) (l : Ledger)
    (hcs : ∀ c ∈ cs, CannotLower author roleOf c.actor) :
    l.policy ≤ (cs.foldl (applyByRules author roleOf) l).policy := by
  induction cs generalizing l with
  | nil => exact le_refl _
  | cons c cs ih =>
    have h1 := le_applyByRules l (hcs c List.mem_cons_self)
    have h2 := ih (l.applyByRules author roleOf c) fun d hd => hcs d (List.mem_cons_of_mem _ hd)
    exact le_trans h1 h2

/-- **A replay goes on where that of the earlier commands has ended.** -/
theorem replay_append (initial : Policy) {h e : List Command} (author : Account)
    (roleOf : Account → Option Role) (hsep : ∀ a ∈ h, ∀ b ∈ e, a.notAfter b = true) :
    replay initial (h ++ e) author roleOf =
      (Command.inOrder e).foldl (applyByRules author roleOf) (replay initial h author roleOf) := by
  unfold replay
  rw [Command.inOrder_append hsep, List.foldl_append]

/-- **Later commands of accounts that cannot lower a policy leave one at or above the earlier.** -/
theorem le_replay_append (initial : Policy) {h e : List Command}
    (hsep : ∀ a ∈ h, ∀ b ∈ e, a.notAfter b = true)
    (hno : ∀ c ∈ e, CannotLower author roleOf c.actor) :
    (replay initial h author roleOf).policy ≤ (replay initial (h ++ e) author roleOf).policy := by
  rw [replay_append initial author roleOf hsep]
  refine le_foldl_applyByRules _ _ fun c hc => hno c ?_
  exact (Command.inOrder_perm e).mem_iff.mp hc

/-! ### The rulings of a replay -/

theorem rulings_prefix_foldl (cs : List Command) (l : Ledger) :
    l.rulings <+: (cs.foldl (applyByRules author roleOf) l).rulings := by
  induction cs generalizing l with
  | nil => exact List.prefix_rfl
  | cons c cs ih =>
    have hone : l.rulings <+: (l.applyByRules author roleOf c).rulings := List.prefix_append _ _
    exact hone.trans (ih _)

theorem sources_foldl_applyByRules (cs : List Command) (l : Ledger) :
    (cs.foldl (applyByRules author roleOf) l).rulings.map (·.source) =
      l.rulings.map (·.source) ++ cs.map (·.source) := by
  induction cs generalizing l with
  | nil => simp
  | cons c cs ih =>
    rw [List.foldl_cons, ih]
    simp [applyByRules, apply, ruling]

theorem sources_replay (initial : Policy) (cs : List Command) :
    (replay initial cs author roleOf).rulings.map (·.source) =
      (Command.inOrder cs).map (·.source) := sources_foldl_applyByRules _ _

theorem length_rulings_replay (initial : Policy) (cs : List Command) :
    (replay initial cs author roleOf).rulings.length = cs.length := by
  rw [← List.length_map (·.source), sources_replay, List.length_map,
    (Command.inOrder_perm cs).length_eq]

theorem source_of_mem_replay {initial : Policy} {cs : List Command} {r : Ruling}
    (hr : r ∈ (replay initial cs author roleOf).rulings) : ∃ c ∈ cs, c.source = r.source := by
  have hsource : r.source ∈ (Command.inOrder cs).map (·.source) :=
    sources_replay initial cs ▸ List.mem_map_of_mem hr
  obtain ⟨c, hc, hcr⟩ := List.mem_map.mp hsource
  exact ⟨c, (Command.inOrder_perm cs).mem_iff.mp hc, hcr⟩

theorem exists_rulingFor? {initial : Policy} {cs : List Command} {c : Command} (h : c ∈ cs) :
    ∃ r, (replay initial cs author roleOf).rulingFor? c.source = some r := by
  have hmem : c.source ∈ (replay initial cs author roleOf).rulings.map (·.source) := by
    rw [sources_replay]
    exact List.mem_map_of_mem ((Command.inOrder_perm cs).mem_iff.mpr h)
  obtain ⟨r, hr, hsource⟩ := List.mem_map.mp hmem
  refine Option.isSome_iff_exists.mp (List.find?_isSome.mpr ⟨r, hr, ?_⟩)
  exact beq_iff_eq.mpr hsource

/-- **Commands that come after all others leave the rulings on these.** -/
theorem rulings_prefix_replay (initial : Policy) {h e : List Command}
    (hsep : ∀ a ∈ h, ∀ b ∈ e, a.notAfter b = true) :
    (replay initial h author roleOf).rulings <+:
      (replay initial (h ++ e) author roleOf).rulings := by
  rw [replay_append initial author roleOf hsep]
  exact rulings_prefix_foldl _ _

theorem rulingFor?_of_prefix {l l' : Ledger} {s : Source} {r : Ruling}
    (h : l.rulings <+: l'.rulings) (hr : l.rulingFor? s = some r) : l'.rulingFor? s = some r :=
  h.find?_eq_some hr

end Ledger

end ReviewQuorum
