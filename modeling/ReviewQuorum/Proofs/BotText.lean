import ReviewQuorum.Proofs.PastRulings
import ReviewQuorum.Proofs.Resumption

/-! # What the bot has written

The comments of the bot are passed over, whatever stands in them. The description of a change
request is not, whoever its author is: so the bot is the actor of an invocation exactly if it is the
author and there is a command line in the description (`Invocation.forall_actor_ne_iff`).

Two snapshots that show the same of all accounts but the bot may differ in the bot's comments and,
if the bot is the author, in the description. Then passes find the same, but for a change request of
the bot's own that makes another request in its description (`bot_heard_in_description_only`). -/

namespace ReviewQuorum

namespace Invocation

variable {change : ChangeRequest} {comments : List Comment} {bot : Account}

/-- **When the bot is not the actor of an invocation.** -/
theorem forall_actor_ne_iff : (∀ i ∈ extract change comments bot, i.actor ≠ bot) ↔
    (change.author = bot → firstLine? change.description = none) := by
  constructor
  · intro h hauthor
    cases hline : firstLine? change.description with
    | none => rfl
    | some line =>
      let i : Invocation := ⟨.description, change.author, line.1, line.2, ⟨change.createdAt, 0⟩⟩
      have hi : ofDescription? change = some i := by
        rw [ofDescription?, hline]
        rfl
      have hmem : i ∈ extract change comments bot :=
        List.mem_append_left _ (Option.mem_toList.mpr hi)
      exact absurd hauthor (h i hmem)
  · intro h i hi
    rcases of_mem_extract hi with hi | ⟨c, -, hbot, hi⟩
    · obtain ⟨line, hline, rfl⟩ := Option.map_eq_some_iff.mp hi
      intro hauthor
      rw [h hauthor] at hline
      cases hline
    · obtain ⟨line, -, rfl⟩ := Option.map_eq_some_iff.mp hi
      exact hbot

end Invocation

/-! ### The commands of a description -/

namespace Ledger

variable {author : Account} {roleOf : Account → Option Role}

theorem replay_singleton (p : Policy) (c : Command) :
    replay p [c] author roleOf = (start p).applyByRules author roleOf c := by
  rw [replay, Command.inOrder_of_pairwise (List.pairwise_singleton _ c)]
  rfl

end Ledger

namespace Snapshot

variable {s s' : Snapshot} {bot : Account} {roleOf : Account → Option Role}

/-- The commands of the comments are carried out after that of the description. -/
theorem ledger_eq (s : Snapshot) (bot : Account) (roleOf : Account → Option Role) :
    s.ledger bot roleOf =
      (Command.inOrder (Invocation.commandsIn s.comments bot)).foldl
        (Ledger.applyByRules s.change.author roleOf)
        (Ledger.replay .default (Invocation.commands (Invocation.ofDescription? s.change).toList)
          s.change.author roleOf) := by
  rw [ledger, Invocation.commands_extract]
  refine Ledger.replay_append .default s.change.author roleOf fun a ha b hb => ?_
  exact Command.notAfter_of_description (Invocation.source_of_mem_described ha)
    (Invocation.source_of_mem_commandsIn hb)

/-- The ledger depends on the description through its request alone. -/
theorem replay_described_eq (hauthor : s'.change.author = s.change.author)
    (hrequest : Invocation.described? s'.change = Invocation.described? s.change) :
    Ledger.replay .default (Invocation.commands (Invocation.ofDescription? s'.change).toList)
        s'.change.author roleOf =
      Ledger.replay .default (Invocation.commands (Invocation.ofDescription? s.change).toList)
        s.change.author roleOf := by
  rw [hauthor]
  rcases Invocation.commands_ofDescription? s.change with ⟨hnone, hd⟩ | ⟨q, text, hq, hd⟩ <;>
    rcases Invocation.commands_ofDescription? s'.change with
      ⟨hnone', hd'⟩ | ⟨q', text', hq', hd'⟩
  · rw [hd, hd']
  · simp [hnone, hq'] at hrequest
  · simp [hnone', hq] at hrequest
  · -- the two commands may differ in their texts and instants, which nothing is made of
    obtain rfl : q' = q := by simpa [hq, hq'] using hrequest
    rw [hd, hd', Ledger.replay_singleton, Ledger.replay_singleton, hauthor]
    rfl

/-- **The ruling on the description** is on its request. -/
theorem request_rulingFor?_description (s : Snapshot) (bot : Account)
    (roleOf : Account → Option Role) :
    ((s.ledger bot roleOf).rulingFor? .description).map (·.request) =
      Invocation.described? s.change := by
  rcases Invocation.commands_ofDescription? s.change with ⟨hnone, hd⟩ | ⟨q, text, hq, hd⟩
  · rw [hnone, Option.map_eq_none_iff, Ledger.rulingFor?, List.find?_eq_none]
    intro ruling hruling
    obtain ⟨c, hc, hsource⟩ := Ledger.source_of_mem_replay hruling
    rw [Invocation.commands_extract, hd, List.nil_append] at hc
    obtain ⟨id, hid⟩ := Invocation.source_of_mem_commandsIn hc
    simp [← hsource, hid]
  · rw [ledger_eq, hd, Ledger.replay_singleton, hq]
    let c : Command := ⟨s.change.author, q, text, .description, ⟨s.change.createdAt, 0⟩⟩
    let first : Ledger := (Ledger.start .default).applyByRules s.change.author roleOf c
    have hruling : first.rulingFor? .description =
        some (Ledger.ruling .default c (Ledger.actorOf s.change.author roleOf c).permission) := rfl
    rw [Ledger.rulingFor?_of_prefix (Ledger.rulings_prefix_foldl _ first) hruling]
    rfl

/-! ### Snapshots that differ in the text of the bot -/

/-- **Snapshots that show the same of all accounts but the bot**, which has written what it likes in
comments and, if it is the author, in the description. -/
structure SameOfOthers (bot : Account) (s s' : Snapshot) : Prop where
  author : s'.change.author = s.change.author
  description : s.change.author ≠ bot → s'.change.description = s.change.description
  comments : Comment.ofOthers bot s'.comments = Comment.ofOthers bot s.comments
  reviews : s'.reviews = s.reviews

theorem SameOfOthers.commandsIn_eq (h : s.SameOfOthers bot s') :
    Invocation.commandsIn s'.comments bot = Invocation.commandsIn s.comments bot :=
  congrArg (fun cs => Invocation.commands ((Comment.inOrder cs).filterMap Invocation.ofComment?))
    h.comments

/-- The same ledger follows, unless the bot has made another request in the description. -/
theorem SameOfOthers.ledger_eq (h : s.SameOfOthers bot s')
    (hbot : s.change.author = bot →
      Invocation.described? s'.change = Invocation.described? s.change) :
    s'.ledger bot roleOf = s.ledger bot roleOf := by
  have hrequest : Invocation.described? s'.change = Invocation.described? s.change := by
    by_cases hauthor : s.change.author = bot
    · exact hbot hauthor
    · rw [Invocation.described?, Invocation.described?, Invocation.ofDescription?,
        Invocation.ofDescription?, h.description hauthor]
      cases Invocation.firstLine? s.change.description <;> rfl
  rw [Snapshot.ledger_eq, Snapshot.ledger_eq s, h.commandsIn_eq,
    replay_described_eq h.author hrequest, h.author]

/-- **The bot is heard in the description of its own change requests**, and nowhere else. -/
theorem SameOfOthers.rulings_eq_iff (h : s.SameOfOthers bot s') :
    (s'.ledger bot roleOf).rulings = (s.ledger bot roleOf).rulings ↔
      (s.change.author = bot →
        Invocation.described? s'.change = Invocation.described? s.change) := by
  constructor
  · intro hrulings _
    rw [← request_rulingFor?_description s' bot roleOf,
      ← request_rulingFor?_description s bot roleOf, Ledger.rulingFor?, hrulings]
    rfl
  · intro hbot
    rw [h.ledger_eq hbot]

end Snapshot

/-! ### Passes -/

namespace Reconciler

variable {r : Reconciler} {id : String} {w w' : World} {s s' : Snapshot}

theorem agrees_planFor_iff (hcensus : w'.census = w.census)
    (hsame : s.SameOfOthers r.settings.botAccount s') (c c' : Context) :
    ((r.planFor id w s).report id c).Agrees ((r.planFor id w' s').report id c') ↔
      (s.change.author = r.settings.botAccount →
        Invocation.described? s'.change = Invocation.described? s.change) := by
  have hledger : (r.planFor id w s).ledger =
      s.ledger r.settings.botAccount w.census.roleOf := rfl
  have hledger' : (r.planFor id w' s').ledger =
      s'.ledger r.settings.botAccount w.census.roleOf := hcensus ▸ rfl
  constructor
  · intro h
    have hrulings := h.rulings
    change (r.planFor id w' s').ledger.rulings = (r.planFor id w s).ledger.rulings at hrulings
    rw [hledger, hledger'] at hrulings
    exact hsame.rulings_eq_iff.mp hrulings
  · intro hbot
    have heq : (r.planFor id w' s').ledger = (r.planFor id w s).ledger := by
      rw [hledger, hledger', hsame.ledger_eq hbot]
    have htally : (r.planFor id w' s').tally = (r.planFor id w s).tally := by
      change (r.planFor id w' s').ledger.policy.tally s'.reviews w'.census.roleOf =
        (r.planFor id w s).ledger.policy.tally s.reviews w.census.roleOf
      rw [heq, hsame.reviews, hcensus]
    have hreadiness : (r.planFor id w' s').readiness = (r.planFor id w s).readiness := by
      change Readiness.evaluate (r.planFor id w' s').ledger.policy (r.planFor id w' s').tally =
        Readiness.evaluate (r.planFor id w s).ledger.policy (r.planFor id w s).tally
      rw [heq, htally]
    have hagrees : (r.planFor id w s).Agrees (r.planFor id w' s') := ⟨heq, htally, hreadiness⟩
    exact hagrees.report id c c'

end Reconciler

/-- **The bot is heard in the description of its own change requests, and nowhere else.** It is the
actor of an invocation exactly if the change request is its own and the description holds a command
line. For snapshots that show the same of all others, passes complete where nothing fails and there
is time for the replies, and those that complete find the same policy, rulings, tally and readiness
exactly if, in case the change request is the bot's own, the two descriptions hold the same request
or none both times. -/
theorem bot_heard_in_description_only (r : Reconciler) {id : String} {w w' : World}
    {s s' : Snapshot} (hs : w.forge.snapshot? id = some s) (hs' : w'.forge.snapshot? id = some s')
    (hsame : s.SameOfOthers r.settings.botAccount s') (hcensus : w'.census = w.census)
    (halone : w.interruptions = {}) (halone' : w'.interruptions = {})
    (hplaced : w.memory.WellPlaced) (hplaced' : w'.memory.WellPlaced) :
    let bot := r.settings.botAccount
    ((∀ i ∈ Invocation.extract s.change s.comments bot, i.actor ≠ bot) ↔
      (s.change.author = bot → Invocation.firstLine? s.change.description = none)) ∧
    (w.faults = [] → r.HasTime id w s → ∃ report, (r.runPass id w).1 = .ok (.completed report)) ∧
    ∀ report report', (r.runPass id w).1 = .ok (.completed report) →
      (r.runPass id w').1 = .ok (.completed report') →
      (report.Agrees report' ↔ (s.change.author = bot →
        Invocation.described? s'.change = Invocation.described? s.change)) := by
  intro bot
  have hhosts : w.HostsAlone id s := ⟨hs, trivial, halone⟩
  have hhosts' : w'.HostsAlone id s' := ⟨hs', trivial, halone'⟩
  refine ⟨Invocation.forall_actor_ne_iff, fun hfaults htime => ?_, fun report report' h h' => ?_⟩
  · exact ⟨_, (r.settles_runPass hhosts hplaced hfaults).result.trans (if_pos htime)⟩
  · rw [Reconciler.report_of_completed hhosts hplaced h,
      Reconciler.report_of_completed hhosts' hplaced' h']
    exact Reconciler.agrees_planFor_iff hcensus hsame _ _

/-- A change request of the bot's own. -/
def botsOwn (description : String) (comments : List Comment) : Snapshot :=
  ⟨⟨"1", "revgate-bot", description, ⟨0⟩, Dict.empty⟩, comments, []⟩

/-- A world with that change request, in which alice is a reviewer. -/
def botsWorld (description : String) (comments : List Comment) : World where
  forge := (Forge.empty "revgate-bot").insert (botsOwn description comments)
  census := RoleTable.empty.insert "alice" .reviewers

theorem snapshot?_botsWorld (description : String) (comments : List Comment) :
    (botsWorld description comments).forge.snapshot? "1" = some (botsOwn description comments) :=
  Forge.snapshot?_put _ _ _

/-- Alice asks for three reviewers. -/
def alicesComment : Comment := ⟨"c2", "alice", "/reviewers 3", ⟨⟨2⟩, 2⟩⟩

/-- The bot asks for none. -/
def botsComment : Comment := ⟨"c1", "revgate-bot", "/reviewers 0", ⟨⟨1⟩, 1⟩⟩

/-- Alice is heard alone: the description makes no request either time. -/
theorem bot_heard_in_description_only_botsWorld :
    let w := botsWorld "Nothing." [alicesComment]
    let w' := botsWorld "/reviewers many" [botsComment, alicesComment]
    (w.interruptions = {} ∧ w'.interruptions = {} ∧ w.memory.WellPlaced ∧ w'.memory.WellPlaced ∧
      (botsOwn "Nothing." [alicesComment]).SameOfOthers "revgate-bot"
        (botsOwn "/reviewers many" [botsComment, alicesComment])) ∧
    ∃ report report', (plainReconciler.runPass "1" w).1 = .ok (.completed report) ∧
      (plainReconciler.runPass "1" w').1 = .ok (.completed report') ∧ report.Agrees report' := by
  intro w w'
  have hs : w.forge.snapshot? "1" = some (botsOwn "Nothing." [alicesComment]) :=
    snapshot?_botsWorld _ _
  have hs' : w'.forge.snapshot? "1" =
      some (botsOwn "/reviewers many" [botsComment, alicesComment]) := snapshot?_botsWorld _ _
  have hsame : (botsOwn "Nothing." [alicesComment]).SameOfOthers "revgate-bot"
      (botsOwn "/reviewers many" [botsComment, alicesComment]) :=
    ⟨rfl, fun h => absurd rfl h, rfl, rfl⟩
  obtain ⟨-, hcompletes, hagrees⟩ := bot_heard_in_description_only plainReconciler hs hs' hsame
    rfl rfl rfl Memory.wellPlaced_empty Memory.wellPlaced_empty
  obtain ⟨report, hreport⟩ := hcompletes rfl (Reconciler.hasTime_of_lt (by decide))
  have hreport' := (plainReconciler.settles_runPass ⟨hs', trivial, rfl⟩ Memory.wellPlaced_empty
    rfl).result.trans (if_pos (Reconciler.hasTime_of_lt (by decide)))
  exact ⟨⟨rfl, rfl, Memory.wellPlaced_empty, Memory.wellPlaced_empty, hsame⟩, report, _, hreport,
    hreport', (hagrees report _ hreport hreport').mpr fun _ => by decide +kernel⟩

/-- With the description of a change request of its own the bot gives a command, and it changes the
policy. -/
theorem bot_commands_by_description :
    (botsOwn "" []).SameOfOthers "revgate-bot" (botsOwn "/reviewers 2" []) ∧
    (∃ i ∈ Invocation.extract (botsOwn "/reviewers 2" []).change [] "revgate-bot",
      i.actor = "revgate-bot") ∧
    (plainReconciler.record "1" (botsWorld "" [])).policy? = some ⟨1, {}⟩ ∧
    (plainReconciler.record "1" (botsWorld "/reviewers 2" [])).policy? = some ⟨2, {}⟩ :=
  ⟨⟨rfl, fun h => absurd rfl h, rfl, rfl⟩, by decide +kernel, by decide +kernel,
    by decide +kernel⟩

end ReviewQuorum
