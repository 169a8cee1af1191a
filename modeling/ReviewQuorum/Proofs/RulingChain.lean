import Mathlib.Data.List.Forall2
import ReviewQuorum.Proofs.ClosedForm

/-! # The chain of rulings

A ledger takes nothing from one command to the next but its policy. So its rulings form a chain,
whoever permits the commands: each ruling finds the policy that the one before it has left
(`Ledger.Chained`), and what it says follows from that policy, the command and the permission for
its step (`Ruling.Answers`). One command more keeps this so (`Ledger.Chained.apply`), and all
commands together do (`rulings_chain`). To ask again for what has just been carried out changes
nothing, since a request leads to the same policy twice (`Policy.apply_apply`).

A replay sorts its commands first. The sort of a history in front of what comes after it splits in
two, ties included, so a replay can be resumed from the policy that it has left
(`replay_resumes`). -/

namespace ReviewQuorum

/-- **The same request again leads nowhere else**, from whatever policy. -/
theorem Policy.apply_apply (p : Policy) (q : Request) : (p.apply q).apply q = p.apply q := by
  have hpositive (p : Policy) : (p.apply q).Positive := fun _ _ hm => (minimum_apply hm).1
  refine ext_minimumFor (hpositive _) (hpositive _) rfl fun s => ?_
  rw [minimumFor_apply, minimumFor_apply]
  cases q.role with
  | none => rfl
  | some r =>
    by_cases hs : r = s
    · simp only [hs, if_true]
    · simp only [hs, if_false, min_assoc, min_self]

namespace Ledger

/-- A call to carry a command out, with who permits its step. -/
structure Call where
  command : Command
  permit : Policy → Policy → Permission

/-- Makes calls one after another. -/
def applyAll (l : Ledger) (calls : List Call) : Ledger :=
  calls.foldl (fun l c => l.apply c.command c.permit) l

end Ledger

/-- **What a ruling says of its call.** It refuses the command for a reason exactly if this is the
answer about the step from the policy before it to the one that the request gives, and leaves the
policy. Otherwise it carries the command out, and says whether the policy has changed. -/
structure Ruling.Answers (r : Ruling) (c : Ledger.Call) : Prop where
  source : r.source = c.command.source
  actor : r.actor = c.command.actor
  request : r.request = c.command.request
  denied_iff : ∀ reason, r.decision = .denied reason ↔
    c.permit r.before (r.before.apply r.request) = .denied reason
  denied : ∀ reason, r.decision = .denied reason → r.after = r.before
  applied : (∀ reason, r.decision ≠ .denied reason) → r.after = r.before.apply r.request ∧
    ∃ changed, r.decision = .applied changed ∧ (changed = true ↔ r.after ≠ r.before)

namespace Ledger

/-- **A chain of rulings** from a policy on, one for each call. Every ruling finds the policy that
the one before it has left, the first one the initial policy, and the last one leaves the policy of
the ledger. -/
structure Chained (initial : Policy) (calls : List Call) (l : Ledger) : Prop where
  answers : List.Forall₂ Ruling.Answers l.rulings calls
  links : l.rulings.map (·.before) ++ [l.policy] = initial :: l.rulings.map (·.after)

variable {initial : Policy} {calls : List Call} {l : Ledger}

/-- **The ruling on a call** from a policy on. -/
theorem answers_ruling (p : Policy) (c : Call) : (ruling p c.command c.permit).Answers c := by
  constructor
  case source => rfl
  case actor => rfl
  case request => rfl
  all_goals
    simp only [ruling]
    cases hp : c.permit p (p.apply c.command.request) with
    | allowed => simp [settle]
    | denied reason => simp [settle]

theorem chained_start (initial : Policy) : Chained initial [] (start initial) := ⟨.nil, rfl⟩

/-- **One more call** adds one more link. -/
theorem Chained.apply (h : Chained initial calls l) (c : Call) :
    Chained initial (calls ++ [c]) (l.apply c.command c.permit) where
  answers := List.rel_append h.answers (.cons (answers_ruling l.policy c) .nil)
  links := by
    have hbefore : (l.apply c.command c.permit).rulings.map (·.before) =
        l.rulings.map (·.before) ++ [l.policy] := List.map_append
    have hafter : (l.apply c.command c.permit).rulings.map (·.after) =
        l.rulings.map (·.after) ++ [(l.apply c.command c.permit).policy] := List.map_append
    rw [hbefore, hafter, h.links, List.cons_append]

theorem applyAll_concat (l : Ledger) (calls : List Call) (c : Call) :
    l.applyAll (calls ++ [c]) = (l.applyAll calls).apply c.command c.permit := by
  rw [applyAll, List.foldl_append]
  rfl

/-- **All calls together** form a chain. -/
theorem chained_applyAll (initial : Policy) (calls : List Call) :
    Chained initial calls ((start initial).applyAll calls) := by
  induction calls using List.reverseRecOn with
  | nil => exact chained_start initial
  | append_singleton calls c ih =>
    rw [applyAll_concat]
    exact ih.apply c

theorem policy_apply_of_isApplied (l : Ledger) (c : Call)
    (h : (ruling l.policy c.command c.permit).isApplied = true) :
    (l.apply c.command c.permit).policy = l.policy.apply c.command.request := by
  have hgranted : ∀ reason, (ruling l.policy c.command c.permit).decision ≠ .denied reason := by
    intro reason hdenied
    rw [Ruling.isApplied, hdenied] at h
    cases h
  exact ((answers_ruling l.policy c).applied hgranted).1

theorem ruling_of_settled {p : Policy} (c : Call) (h : p.apply c.command.request = p)
    (hallowed : c.permit p (p.apply c.command.request) = .allowed) :
    (ruling p c.command c.permit).decision = .applied false ∧
      (ruling p c.command c.permit).after = p := by
  rw [h] at hallowed
  simp only [ruling, h, hallowed, settle, bne_self_eq_false, and_self]

end Ledger

/-- **The rulings are a chain, whoever permits the commands.** There is one ruling for each call, in
their order, and it says what became of the call. The policies before the rulings, and at the end
that of the ledger, are the initial one and those after the rulings. If the last command was carried
out, the same request once more, if it is permitted, is carried out without effect. -/
theorem rulings_chain (initial : Policy) (calls : List Ledger.Call) :
    let l := (Ledger.start initial).applyAll calls
    List.Forall₂ Ruling.Answers l.rulings calls ∧
      l.rulings.map (·.before) ++ [l.policy] = initial :: l.rulings.map (·.after) ∧
      ∀ r ∈ l.rulings.getLast?, r.isApplied = true → ∀ again : Ledger.Call,
        again.command.request = r.request →
        again.permit l.policy (l.policy.apply again.command.request) = .allowed →
        ∃ r', (l.apply again.command again.permit).rulings = l.rulings ++ [r'] ∧
          r'.decision = .applied false ∧
          (l.apply again.command again.permit).policy = l.policy := by
  intro l
  have hchained : Ledger.Chained initial calls l := Ledger.chained_applyAll initial calls
  refine ⟨hchained.answers, hchained.links, fun r hr happlied again hsame hallowed => ?_⟩
  rcases calls.eq_nil_or_concat with hnil | ⟨earlier, c, hcalls⟩
  · subst hnil
    cases hr
  · have hl : l = ((Ledger.start initial).applyAll earlier).apply c.command c.permit := by
      rw [← Ledger.applyAll_concat, ← List.concat_eq_append, ← hcalls]
    generalize (Ledger.start initial).applyAll earlier = l₀ at hl
    have hlast : Ledger.ruling l₀.policy c.command c.permit = r := by
      rw [hl, Ledger.apply, List.getLast?_concat] at hr
      exact Option.some.inj hr
    have hrequest : again.command.request = c.command.request := by rw [hsame, ← hlast]; rfl
    have hpolicy : l.policy = l₀.policy.apply c.command.request := by
      rw [hl]
      exact Ledger.policy_apply_of_isApplied l₀ c (hlast ▸ happlied)
    have hsettled : l.policy.apply again.command.request = l.policy := by
      rw [hrequest, hpolicy, Policy.apply_apply]
    obtain ⟨hdecision, hafter⟩ := Ledger.ruling_of_settled again hsettled hallowed
    exact ⟨_, rfl, hdecision, hafter⟩

/-- Calls of alice's that are permitted unless they lower something. -/
def raisingCalls (requests : List Request) : List Ledger.Call :=
  requests.map fun q => ⟨⟨"alice", q, "", .description, ⟨⟨0⟩, 0⟩⟩, fun p p' =>
    if p.transitionTo p' = .lowers then .denied .decreaseNotPermitted else .allowed⟩

/-- From a policy with a minimum above its total and one of zero alice asks for one reviewer, in
vain, and for nine leads. To ask for these again has no effect. -/
theorem rulings_chain_nineLeads :
    let initial : Policy := ⟨3, { authors := some 0, lead := some 7 }⟩
    let l := (Ledger.start initial).applyAll (raisingCalls [⟨1, none⟩, ⟨9, some .lead⟩])
    l.rulings.map (·.decision) = [.denied .decreaseNotPermitted, .applied true] ∧
      l.rulings.map (·.before) = [initial, initial] ∧ l.policy = ⟨9, { lead := some 9 }⟩ ∧
      ∀ again ∈ raisingCalls [⟨9, some .lead⟩],
        ∃ r', (l.apply again.command again.permit).rulings = l.rulings ++ [r'] ∧
          r'.decision = .applied false ∧
          (l.apply again.command again.permit).policy = l.policy := by
  intro initial l
  obtain ⟨-, -, hagain⟩ :=
    rulings_chain initial (raisingCalls [⟨1, none⟩, ⟨9, some .lead⟩])
  refine ⟨by decide, by decide, by decide, fun again hmem => ?_⟩
  obtain rfl := List.mem_singleton.mp hmem
  exact hagain _ rfl (by decide) _ rfl (by decide)

/-! ### Replays that are resumed -/

namespace Command

/-- The key by which commands are put in order. -/
def key (c : Command) : Nat ×ₗ Int ×ₗ Nat :=
  toLex (c.source.rank, toLex (c.moment.timestamp.ticks, c.moment.sequence))

theorem notAfter_iff_key_le {a b : Command} : a.notAfter b = true ↔ a.key ≤ b.key := by
  rw [notAfter_iff, Moment.le_iff]
  simp only [key, Prod.Lex.toLex_le_toLex]

theorem inOrder_pair {a b : Command} (h : ¬ a.key ≤ b.key) : inOrder [a, b] = [b, a] := by
  have hbelow : b.notAfter a = true ∧ a.notAfter b = false :=
    ⟨notAfter_iff_key_le.mpr (not_le.mp h).le,
      Bool.eq_false_iff.mpr fun hab => h (notAfter_iff_key_le.mp hab)⟩
  have hsort : ([a] ++ b :: []).mergeSort notAfter =
      b :: ([a] ++ []).mergeSort notAfter :=
    StableOrder.mergeSort_of_least notAfter_trans notAfter_total [a] [] b
      (List.forall_mem_singleton.mpr hbelow)
  rwa [List.append_nil, List.mergeSort_singleton] at hsort

end Command

namespace Ledger

variable {author : Account} {roleOf : Account → Option Role}

/-- The rulings on commands in a row depend on those before them through the policy alone. -/
theorem ruleOnAll_append (p : Policy) (cs ds : List Command) :
    ruleOnAll author roleOf p (cs ++ ds) = ruleOnAll author roleOf p cs ++
      ruleOnAll author roleOf (cs.foldl (policyAfter author roleOf) p) ds := by
  induction cs generalizing p with
  | nil => rfl
  | cons c cs ih =>
    rw [List.cons_append, ruleOnAll, ruleOnAll, ih, List.foldl_cons, List.cons_append]

end Ledger

/-- **A replay can be resumed.** If no command of a history has a larger key than one that is to
come, the rulings on both are those on the history and then those of a replay of the others from the
policy that the history has left, and that replay leaves the policy of both. -/
theorem replay_resumes (initial : Policy) {history added : List Command} (author : Account)
    (roleOf : Account → Option Role)
    (h : ∀ a ∈ history, ∀ b ∈ added, ¬ b.key < a.key) :
    let whole := Ledger.replay initial (history ++ added) author roleOf
    let first := Ledger.replay initial history author roleOf
    let rest := Ledger.replay first.policy added author roleOf
    whole.rulings = first.rulings ++ rest.rulings ∧ whole.policy = rest.policy := by
  intro whole first rest
  have hsep : ∀ a ∈ history, ∀ b ∈ added, a.notAfter b = true := fun a ha b hb =>
    Command.notAfter_iff_key_le.mpr (not_lt.mp (h a ha b hb))
  have hsplit : Command.inOrder (history ++ added) =
      Command.inOrder history ++ Command.inOrder added := Command.inOrder_append hsep
  have hfirst : first.policy =
      (Command.inOrder history).foldl (Ledger.policyAfter author roleOf) initial :=
    Ledger.policy_replay initial history
  constructor
  · rw [Ledger.rulings_replay, Ledger.rulings_replay, Ledger.rulings_replay, hsplit,
      Ledger.ruleOnAll_append, hfirst]
  · rw [Ledger.policy_replay, Ledger.policy_replay, hsplit, List.foldl_append, hfirst]

/-- A request in a comment, by the instant of the comment. -/
def requestAt (instant : Int) (account : Account) (q : Request) : Command :=
  ⟨account, q, "", .comment "c1", ⟨⟨instant⟩, 1⟩⟩

/-- Alice has asked for three reviewers and then for two, and the commands of each list come in any
order: rev asks for one at the instant of alice's second request, and alice for four leads later. -/
theorem replay_resumes_atTie :
    let roleOf : Account → Option Role := fun a => if a = "rev" then some .reviewers else none
    let history := [requestAt 2 "alice" ⟨2, none⟩, requestAt 1 "alice" ⟨3, none⟩]
    let added := [requestAt 3 "alice" ⟨4, some .lead⟩, requestAt 2 "rev" ⟨1, none⟩]
    let whole := Ledger.replay .default (history ++ added) "alice" roleOf
    let first := Ledger.replay .default history "alice" roleOf
    let rest := Ledger.replay first.policy added "alice" roleOf
    (∀ a ∈ history, ∀ b ∈ added, ¬ b.key < a.key) ∧
      whole.rulings.map (·.decision) =
        [.applied true, .denied .authorCannotDecrease, .applied true, .applied true] ∧
      whole.rulings = first.rulings ++ rest.rulings ∧ whole.policy = rest.policy := by
  intro roleOf history added whole first rest
  have hkeys : ∀ a ∈ history, ∀ b ∈ added, ¬ b.key < a.key := by decide
  have hhistory : Command.inOrder history =
      [requestAt 1 "alice" ⟨3, none⟩, requestAt 2 "alice" ⟨2, none⟩] :=
    Command.inOrder_pair (by decide)
  have hadded : Command.inOrder added =
      [requestAt 2 "rev" ⟨1, none⟩, requestAt 3 "alice" ⟨4, some .lead⟩] :=
    Command.inOrder_pair (by decide)
  obtain ⟨hrulings, hpolicy⟩ := replay_resumes .default "alice" roleOf hkeys
  refine ⟨hkeys, ?_, hrulings, hpolicy⟩
  rw [hrulings, Ledger.rulings_replay, Ledger.rulings_replay, Ledger.policy_replay, hhistory,
    hadded]
  decide

end ReviewQuorum
