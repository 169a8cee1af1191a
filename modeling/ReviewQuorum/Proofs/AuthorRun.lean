import ReviewQuorum.Proofs.Replay
import ReviewQuorum.Proofs.Run

/-! # What the author can do between passes

A pass derives the policy anew from the description and the comments that it has fetched. While only
the author writes, later passes see the comments of earlier ones and, after all of them, others of
the author's, which cannot lower the policy (`derived_le`). The description comes first in a replay,
and an edit of it can change what becomes of everything after it, so nothing is said of passes that
find different requests in it; if they find the same one, the policy is never lowered
(`author_lowers_nothing`). With an edit of the description the author can lower it
(`author_lowers_by_description`). -/

namespace ReviewQuorum

namespace Ledger

variable {author : Account} {roleOf : Account → Option Role}

/-- The policy after a command, by the rules. -/
def policyAfter (author : Account) (roleOf : Account → Option Role) (p : Policy) (c : Command) :
    Policy :=
  if (actorOf author roleOf c).permission p (p.apply c.request) = .allowed then p.apply c.request
  else p

theorem policy_foldl_applyByRules (cs : List Command) (l : Ledger) :
    (cs.foldl (applyByRules author roleOf) l).policy =
      cs.foldl (policyAfter author roleOf) l.policy := by
  induction cs generalizing l with
  | nil => rfl
  | cons c cs ih => rw [List.foldl_cons, List.foldl_cons, ih, applyByRules, policy_apply]; rfl

end Ledger

/-! ### The commands of a change request -/

namespace Invocation

variable {bot : Account}

/-- The request in a description, if there is one. -/
def described? (change : ChangeRequest) : Option Request :=
  (ofDescription? change).bind fun i => i.outcome.request?

/-- The commands in comments. -/
def commandsIn (comments : List Comment) (bot : Account) : List Command :=
  commands ((Comment.inOrder (comments.filter fun c => c.author != bot)).filterMap ofComment?)

theorem commands_extract (change : ChangeRequest) (comments : List Comment) (bot : Account) :
    commands (extract change comments bot) =
      commands (ofDescription? change).toList ++ commandsIn comments bot :=
  List.filterMap_append

/-- Comments that are later than all others give the last commands. -/
theorem commandsIn_append {cs added : List Comment}
    (h : ∀ a ∈ cs, ∀ b ∈ added, a.moment.timestamp.ticks < b.moment.timestamp.ticks) :
    commandsIn (cs ++ added) bot = commandsIn cs bot ++ commandsIn added bot := by
  have hsort : Comment.inOrder ((cs ++ added).filter fun c => c.author != bot) =
      Comment.inOrder (cs.filter fun c => c.author != bot) ++
        Comment.inOrder (added.filter fun c => c.author != bot) := by
    rw [List.filter_append]
    refine Comment.inOrder_append fun a ha b hb => ?_
    exact Moment.le_iff.mpr (.inl (h a (List.mem_filter.mp ha).1 b (List.mem_filter.mp hb).1))
  rw [commandsIn, hsort, List.filterMap_append, commands, List.filterMap_append]
  rfl

theorem of_mem_commandsIn {cs : List Comment} {c : Command} (h : c ∈ commandsIn cs bot) :
    ∃ k ∈ cs, k.author ≠ bot ∧ c.actor = k.author ∧ c.source = .comment k.id ∧
      c.moment = k.moment := by
  obtain ⟨i, hi, hc⟩ := List.mem_filterMap.mp h
  obtain ⟨k, hk, hi⟩ := List.mem_filterMap.mp hi
  have hk := List.mem_filter.mp ((List.mergeSort_perm _ _).mem_iff.mp hk)
  obtain ⟨line, -, rfl⟩ := Option.map_eq_some_iff.mp hi
  obtain ⟨q, -, rfl⟩ := Option.map_eq_some_iff.mp hc
  exact ⟨k, hk.1, by simpa using hk.2, rfl, rfl, rfl⟩

theorem source_of_mem_commandsIn {cs : List Comment} {c : Command} (h : c ∈ commandsIn cs bot) :
    ∃ id, c.source = .comment id := by
  obtain ⟨k, -, -, -, hsource, -⟩ := of_mem_commandsIn h
  exact ⟨k.id, hsource⟩

theorem commands_ofDescription? (change : ChangeRequest) :
    (described? change = none ∧ commands (ofDescription? change).toList = []) ∨
    ∃ q text, described? change = some q ∧ commands (ofDescription? change).toList =
      [⟨change.author, q, text, .description, ⟨change.createdAt, 0⟩⟩] := by
  unfold described? ofDescription?
  cases firstLine? change.description with
  | none => exact .inl ⟨rfl, rfl⟩
  | some line =>
    obtain ⟨text, o⟩ := line
    cases o with
    | parsed q => exact .inr ⟨q, text, rfl, rfl⟩
    | _ => exact .inl ⟨rfl, rfl⟩

end Invocation

theorem Command.notAfter_of_description {a b : Command} (ha : a.source = .description)
    (hb : ∃ id, b.source = .comment id) : a.notAfter b = true := by
  obtain ⟨id, hid⟩ := hb
  rw [notAfter_iff, ha, hid]
  exact .inl Nat.zero_lt_one

namespace Invocation

theorem source_of_mem_described {change : ChangeRequest} {d : Command}
    (h : d ∈ commands (ofDescription? change).toList) : d.source = .description := by
  rcases commands_ofDescription? change with ⟨-, hd⟩ | ⟨q, text, -, hd⟩
  all_goals
    rw [hd] at h
    simp_all

/-- **The commands of later comments** are taken after those of a change request and its comments.
-/
theorem notAfter_of_later {bot : Account} {change : ChangeRequest} {cs added : List Comment}
    (hlater : ∀ a ∈ cs, ∀ b ∈ added, a.moment.timestamp.ticks < b.moment.timestamp.ticks) :
    ∀ a ∈ commands (extract change cs bot), ∀ b ∈ commandsIn added bot, a.notAfter b = true := by
  intro a ha b hb
  rw [commands_extract] at ha
  rcases List.mem_append.mp ha with ha | ha
  · exact Command.notAfter_of_description (source_of_mem_described ha) (source_of_mem_commandsIn hb)
  · obtain ⟨k, hk, -, -, hsource, hmoment⟩ := of_mem_commandsIn ha
    obtain ⟨l, hl, -, -, hsource', hmoment'⟩ := of_mem_commandsIn hb
    rw [Command.notAfter_iff, hsource, hsource', hmoment, hmoment']
    exact .inr ⟨rfl, Moment.le_iff.mpr (.inl (hlater k hk l hl))⟩

end Invocation

/-! ### The policy that a pass derives -/

/-- The policy that follows from a change request and its comments. -/
def derived (roleOf : Account → Option Role) (bot : Account) (change : ChangeRequest)
    (comments : List Comment) : Policy :=
  (Ledger.replay .default (Invocation.commands (Invocation.extract change comments bot))
    change.author roleOf).policy

/-- A replay takes the description first and goes on with the comments. -/
theorem policy_replay_description {roleOf : Account → Option Role} {author : Account}
    {ds cs : List Command} (hds : ∀ d ∈ ds, d.source = .description)
    (hcs : ∀ c ∈ cs, ∃ id, c.source = .comment id) :
    (Ledger.replay .default (ds ++ cs) author roleOf).policy =
      (Command.inOrder cs).foldl (Ledger.policyAfter author roleOf)
        (Ledger.replay .default ds author roleOf).policy := by
  rw [Ledger.replay_append, Ledger.policy_foldl_applyByRules]
  intro d hd c hc
  exact Command.notAfter_of_description (hds d hd) (hcs c hc)

theorem policy_replay_singleton (roleOf : Account → Option Role) (author : Account) (d : Command) :
    (Ledger.replay .default [d] author roleOf).policy =
      Ledger.policyAfter author roleOf .default d := by
  rw [Ledger.replay, Command.inOrder_of_pairwise (List.pairwise_singleton _ _),
    Ledger.policy_foldl_applyByRules]
  rfl

theorem policy_replay_described {change change' : ChangeRequest} (author : Account)
    (roleOf : Account → Option Role) (hauthor : change'.author = change.author)
    (hsame : Invocation.described? change = Invocation.described? change') :
    (Ledger.replay .default (Invocation.commands (Invocation.ofDescription? change).toList) author
      roleOf).policy =
    (Ledger.replay .default (Invocation.commands (Invocation.ofDescription? change').toList) author
      roleOf).policy := by
  rcases Invocation.commands_ofDescription? change with ⟨hq, h⟩ | ⟨q, text, hq, h⟩ <;>
    rcases Invocation.commands_ofDescription? change' with ⟨hq', h'⟩ | ⟨q', text', hq', h'⟩ <;>
    rw [hq, hq'] at hsame
  · rw [h, h']
  · cases hsame
  · cases hsame
  · cases hsame
    rw [h, h', policy_replay_singleton, policy_replay_singleton, hauthor]
    rfl

/-- **A later policy, while only the author writes.** The description holds the same request, and
the comments that were added are later and by accounts that cannot lower a policy, or are passed
over. -/
theorem derived_le {roleOf : Account → Option Role} {bot : Account} {change change' : ChangeRequest}
    {cs added : List Comment} (hauthor : change'.author = change.author)
    (hsame : Invocation.described? change = Invocation.described? change')
    (hlater : ∀ a ∈ cs, ∀ b ∈ added, a.moment.timestamp.ticks < b.moment.timestamp.ticks)
    (hno : ∀ k ∈ added, k.author ≠ bot → CannotLower change.author roleOf k.author) :
    derived roleOf bot change cs ≤ derived roleOf bot change' (cs ++ added) := by
  have hdescribed (c : ChangeRequest) :
      ∀ d ∈ Invocation.commands (Invocation.ofDescription? c).toList, d.source = .description :=
    fun d => Invocation.source_of_mem_described
  have hcomment (cs : List Comment) :
      ∀ d ∈ Invocation.commandsIn cs bot, ∃ id, d.source = .comment id :=
    fun d => Invocation.source_of_mem_commandsIn
  have hequal : derived roleOf bot change cs = derived roleOf bot change' cs := by
    rw [derived, derived, Invocation.commands_extract, Invocation.commands_extract,
      policy_replay_description (hdescribed change) (hcomment cs),
      policy_replay_description (hdescribed change') (hcomment cs), hauthor]
    rw [policy_replay_described change.author roleOf hauthor hsame]
  calc derived roleOf bot change cs = derived roleOf bot change' cs := hequal
    _ ≤ derived roleOf bot change' (cs ++ added) := by
      rw [derived, derived, Invocation.commands_extract change' (cs ++ added),
        Invocation.commandsIn_append hlater, ← List.append_assoc, ← Invocation.commands_extract]
      refine Ledger.le_replay_append .default (Invocation.notAfter_of_later hlater) fun c hc => ?_
      obtain ⟨k, hk, hbot, hactor, -⟩ := Invocation.of_mem_commandsIn hc
      rw [hactor, hauthor]
      exact hno k hk hbot

/-! ### The roles that a pass knows -/

/-- **The policy of a pass that completes** is the one that follows from what it has seen and from
the census. -/
theorem Reconciler.Ends.derived {who : Account → Prop} {r : Reconciler} {id : String} {w w' : World}
    {s s' : Snapshot} {t : Pass.Trace} {result : Except Failure PassResult} {policy : Policy}
    (h : Ends who r id w s t w' s' result)
    (hpolicy : PassRecord.policy? ⟨w, t, result, w'⟩ = some policy) :
    ∃ change seen, Pass.changesIn t = [change] ∧ change.author = s.change.author ∧
      Comment.Continues who s.comments seen ∧ Comment.Continues who seen s'.comments ∧
      policy = ReviewQuorum.derived w.census.roleOf r.settings.botAccount change seen := by
  cases h with
  | fruitless => cases hpolicy
  | broken => cases hpolicy
  | @completed facts sent hc hcontext =>
    obtain rfl := Option.some.inj hpolicy
    obtain ⟨s₁, s₂, h₁, hchange, h₂, hcomments, h₃⟩ := hc.gathered.seen
    refine ⟨facts.change, facts.comments, hc.gathered.changes, ?_, ?_, ?_, ?_⟩
    · rw [hchange, h₁.author]
    · exact hcomments ▸ (h₁.trans h₂).comments
    · exact hcomments ▸ h₃.comments
    · refine congrArg Ledger.policy (Ledger.replay_congr fun c hc' => hc.gathered.roles _ ?_)
      exact NameSet.mem_ofNames (List.mem_append_left _
        (List.mem_cons_of_mem _ (List.mem_map_of_mem hc')))

/-! ### Runs -/

/-- A later pass that finds the same request in the description has a policy that is not lower. -/
def LowersNothing (p q : PassRecord) : Prop :=
  ∀ change change' policy policy', Pass.changesIn p.trace = [change] →
    Pass.changesIn q.trace = [change'] →
    Invocation.described? change = Invocation.described? change' →
    p.policy? = some policy → q.policy? = some policy' → policy.transitionTo policy' ≠ .lowers

/-- What a pass of a run has seen, when the comments are `cs` by now. -/
def Saw (who : Account → Prop) (roleOf : Account → Option Role) (author bot : Account)
    (p : PassRecord) (cs : List Comment) : Prop :=
  ∀ policy, p.policy? = some policy → ∃ change seen, Pass.changesIn p.trace = [change] ∧
    change.author = author ∧ Comment.Continues who seen cs ∧ policy = derived roleOf bot change seen

variable {who : Account → Prop} {roleOf : Account → Option Role} {author bot : Account}

theorem Saw.grow {p : PassRecord} {cs ds : List Comment} (h : Saw who roleOf author bot p cs)
    (hc : Comment.Continues who cs ds) : Saw who roleOf author bot p ds := fun policy hp => by
  obtain ⟨change, seen, hchange, hauthor, hseen, hpolicy⟩ := h policy hp
  exact ⟨change, seen, hchange, hauthor, hseen.trans hc, hpolicy⟩

/-- **Two passes of a run**, of which the later one has seen what the earlier one has, and more. -/
theorem Saw.lowersNothing {p : PassRecord} {r : Reconciler} {id : String} {w w' : World}
    {s s' : Snapshot} {t : Pass.Trace} {result : Except Failure PassResult}
    (hwho : ∀ a, who a → a ≠ r.settings.botAccount → CannotLower author roleOf a)
    (hcensus : w.census.roleOf = roleOf) (hauthor : s.change.author = author)
    (h : Saw who roleOf author r.settings.botAccount p s.comments)
    (hends : Reconciler.Ends who r id w s t w' s' result) :
    LowersNothing p ⟨w, t, result, w'⟩ := by
  intro change change' policy policy' hchange hchange' hsame hp hq
  obtain ⟨c, seen, hc, hcauthor, hseen, hpolicy⟩ := h policy hp
  obtain ⟨c', seen', hc', hcauthor', hseen₁, -, hpolicy'⟩ := hends.derived hq
  obtain rfl : c = change := List.singleton_inj.mp (hc.symm.trans hchange)
  obtain rfl : c' = change' := List.singleton_inj.mp (hc'.symm.trans hchange')
  obtain ⟨added, rfl, hadded, hlater⟩ := (hseen.trans hseen₁).exists_append
  rw [Policy.transitionTo_ne_lowers, hpolicy, hpolicy', hcensus]
  refine derived_le (hcauthor'.trans (hauthor.trans hcauthor.symm)) hsame hlater fun k hk hbot => ?_
  rw [hcauthor]
  exact hwho k.author (hadded k hk) hbot

/-- **No pass lowers the policy of an earlier one** in a run in which only those write who cannot
lower it. -/
theorem lowersNothing_run {users : Account → Prop} (husers : ∀ a, users a → who a) {r : Reconciler}
    {id : String} {w₀ w : World} {s₀ : Snapshot} {ps : List PassRecord} (hs : w₀.Hosts who id s₀)
    (hm : w₀.memory.WellPlaced) (hwho : ∀ a, who a → a ≠ r.settings.botAccount →
      CannotLower s₀.change.author w₀.census.roleOf a) (hrun : Run users r id w₀ ps w) :
    ∃ s, Reconciler.Kept who id w₀ s₀ w s ∧ ps.Pairwise LowersNothing ∧
      ∀ p ∈ ps, Saw who w₀.census.roleOf s₀.change.author r.settings.botAccount p s.comments := by
  refine Reconciler.invariant_run (P := fun ps _ s => ps.Pairwise LowersNothing ∧
    ∀ p ∈ ps, Saw who w₀.census.roleOf s₀.change.author r.settings.botAccount p s.comments)
    husers hs hm ⟨.nil, by simp⟩ ?act ?restart ?pass hrun
  case act =>
    intro ps w s w' s' hk hk' _ ⟨hlow, hsaw⟩
    exact ⟨hlow, fun p hp => (hsaw p hp).grow hk'.grows.comments⟩
  case restart => exact fun _ h => h
  case pass =>
    intro ps w s t result w' s' hk hk' hends ⟨hlow, hsaw⟩
    have hroles : w.census.roleOf = w₀.census.roleOf := congrArg RoleTable.roleOf hk.census
    constructor
    · -- the last pass has seen what each of the earlier ones has
      refine List.pairwise_append.mpr ⟨hlow, List.pairwise_singleton _ _, fun p hp q hq => ?_⟩
      obtain rfl := List.mem_singleton.mp hq
      exact (hsaw p hp).lowersNothing hwho hroles hk.grows.author hends
    · intro p hp
      rcases List.mem_append.mp hp with hp | hp
      · exact (hsaw p hp).grow hk'.grows.comments
      · obtain rfl := List.mem_singleton.mp hp
        intro policy hpolicy
        obtain ⟨change, seen, hchange, hauthor, -, hseen, heq⟩ := hends.derived hpolicy
        exact ⟨change, seen, hchange, hauthor.trans hk.grows.author, hseen, by rw [heq, hroles]⟩

/-- One account and no other. -/
def Only (author a : Account) : Prop := a = author

/-- **While only the author writes, the policy is never lowered**, unless the description has got
another request or lost the one it had. Replies are posted as the bot whose comments are passed
over, or as an account that cannot lower a policy. -/
theorem author_lowers_nothing {r : Reconciler} {id : String} {forge : Forge} {census : RoleTable}
    {s : Snapshot} {ps : List PassRecord} {w : World} (hs : forge.snapshot? id = some s)
    (hbot : forge.bot = r.settings.botAccount ∨
      CannotLower s.change.author census.roleOf forge.bot)
    (hrun : Run (Only s.change.author) r id (World.start forge census) ps w) :
    ps.Pairwise LowersNothing := by
  let who : Account → Prop := fun a => a = s.change.author ∨ a = forge.bot
  have husers : ∀ a, Only s.change.author a → who a := fun a => .inl
  have hhosts : (World.start forge census).Hosts who id s := ⟨hs, .inr rfl, rfl⟩
  have hwho : ∀ a, who a → a ≠ r.settings.botAccount →
      CannotLower s.change.author census.roleOf a := by
    rintro a (rfl | rfl) hne
    · exact .inl rfl
    · exact hbot.resolve_left hne
  obtain ⟨-, -, hlow, -⟩ := lowersNothing_run husers hhosts Memory.wellPlaced_empty hwho hrun
  exact hlow

/-! ### Runs of two passes -/

/-- A forge with one change request, by its author and its description. -/
def hosting (bot author : Account) (description : String) : Forge :=
  (Forge.empty bot).insert ⟨⟨"1", author, description, ⟨0⟩, Dict.empty⟩, [], []⟩

/-- A first pass over that change request. -/
def passOver (bot author : Account) (description : String) (census : RoleTable) : PassRecord :=
  (Reconciler.ofSettings {}).record "1" (.start (hosting bot author description) census)

/-- A pass after another one and after what the author has done. -/
def passAfter (p : PassRecord) (act : World → World) : PassRecord :=
  (Reconciler.ofSettings {}).record "1" (act p.after)

/-- What alice writes after a pass. -/
def alices (body : String) (w : World) : World := w.comment "1" "alice" body

theorem author_lowers_nothing_alice :
    let p := passOver "revgate-bot" "alice" "" .empty
    let q := passAfter p (alices "/reviewers 3")
    p.policy? = some ⟨1, {}⟩ ∧ q.policy? = some ⟨3, {}⟩ ∧ [p, q].Pairwise LowersNothing := by
  intro p q
  have hs : (hosting "revgate-bot" "alice" "").snapshot? "1" =
      some ⟨⟨"1", "alice", "", ⟨0⟩, Dict.empty⟩, [], []⟩ := rfl
  have hact : World.Act (Only "alice") "1" p.after (alices "/reviewers 3" p.after) :=
    .comment (show Only "alice" "alice" from rfl) "/reviewers 3"
  have hrun := Reconciler.run_record ((Reconciler.run_record .start).act hact)
  exact ⟨by decide +kernel, by decide +kernel, author_lowers_nothing hs (.inl rfl) hrun⟩

/-- The description that alice writes after a pass. -/
def alicesEdit (description : String) (w : World) : World :=
  { w with forge := w.forge.modify "1" fun s => s.describe description }

/-- A census in which the account that posts the replies is a lead. -/
def helperLead : RoleTable := RoleTable.empty.insert "helper" .lead

/-- The policy is lowered when alice takes the request out of the description. It is, too, when the
replies are posted as a lead whose comments are not passed over and repeat a name that has a command
in it. -/
theorem author_lowers_by_description :
    (let p := passOver "revgate-bot" "alice" "/reviewers 2" .empty
     let q := passAfter p (alicesEdit "")
     Run (Only "alice") (.ofSettings {}) "1"
        (.start (hosting "revgate-bot" "alice" "/reviewers 2") .empty) [p, q] q.after ∧
      p.policy? = some ⟨2, {}⟩ ∧ q.policy? = some ⟨1, {}⟩) ∧
    (let p := passOver "helper" "x\n/reviewers 0\ny" "/reviewers" helperLead
     let q := passAfter p fun w => w
     Run (Only "x\n/reviewers 0\ny") (.ofSettings {}) "1"
        (.start (hosting "helper" "x\n/reviewers 0\ny" "/reviewers") helperLead) [p, q] q.after ∧
      p.policy? = some ⟨1, {}⟩ ∧ q.policy? = some ⟨0, {}⟩) ∧
    Policy.transitionTo ⟨2, {}⟩ ⟨1, {}⟩ = .lowers ∧
    Policy.transitionTo ⟨1, {}⟩ ⟨0, {}⟩ = .lowers := by
  refine ⟨⟨?_, by decide +kernel, by decide +kernel⟩, ⟨?_, by decide +kernel, by decide +kernel⟩,
    by decide, by decide⟩
  · have hact {w : World} : World.Act (Only "alice") "1" w (alicesEdit "" w) :=
      .describe (show Only "alice" "alice" from rfl) ""
    exact Reconciler.run_record ((Reconciler.run_record .start).act hact)
  · exact Reconciler.run_record (Reconciler.run_record .start)

end ReviewQuorum
