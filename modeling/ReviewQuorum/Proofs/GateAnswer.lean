import ReviewQuorum.Proofs.AuthorRun
import ReviewQuorum.Proofs.Crowd
import ReviewQuorum.Proofs.SolePass

/-! # What the gate answers

Here a change request is judged from its texts and its reviews alone. The description and then the
comments of all but the bot are heard one after another, and each of them may make a request; the
requests that the rules allow are committed, from the default policy on (`Snapshot.policy`). The
policy is met if enough of the accounts whose latest review approves count for its total and for
each of its minimums (`Policy.MetBy`).

The gate comes to the same judgement through a pass, whatever is remembered, labelled or already
answered. Where nothing fails and nobody else acts, it answers if its pass has time. It opens for no
change request that does not meet its policy, and for every one that does, as long as no counter
overflows (`checkGate_allowed_iff`). -/

namespace ReviewQuorum

/-! ### The judgement -/

/-- The request of a text: that of its first command line, if it reads as one. -/
def requestIn? (text : String) : Option Request :=
  (Invocation.firstLine? text).bind fun line => line.2.request?

/-- The texts of a change request with their accounts: the description, and in order of their
moments the comments of all but the bot. -/
def Snapshot.voices (s : Snapshot) (bot : Account) : List (Account × String) :=
  (s.change.author, s.change.description) ::
    (Comment.inOrder (s.comments.filter fun c => c.author != bot)).map fun c => (c.author, c.body)

/-- The policy after a text has been heard: its request is committed if the rules allow it. -/
def Policy.heed (author : Account) (roleOf : Account → Option Role) (p : Policy)
    (voice : Account × String) : Policy :=
  match requestIn? voice.2 with
  | none => p
  | some q =>
    let actor : Actor := ⟨voice.1, roleOf voice.1, voice.1 == author⟩
    if actor.permissionFor p q = .allowed then p.apply q else p

/-- **The policy of a change request**, by its texts. -/
def Snapshot.policy (s : Snapshot) (bot : Account) (roleOf : Account → Option Role) : Policy :=
  (s.voices bot).foldl (Policy.heed s.change.author roleOf) .default

/-- **When reviews meet a policy**: of the accounts whose latest review approves, enough are unknown
or of standing `authors` at least, and for every minimum enough are of its role's standing at least.
-/
structure Policy.MetBy (p : Policy) (reviews : List Review) (roleOf : Account → Option Role) :
    Prop where
  total : p.total ≤
    ((approvers reviews).filter fun a => ∀ role ∈ roleOf a, Role.authors ≤ role).card
  minimums : ∀ r m, p.minimums.get? r = some m →
    m ≤ ((approvers reviews).filter fun a => ∃ role ∈ roleOf a, r ≤ role).card

/-! ### The texts -/

namespace Invocation

variable {bot : Account}

theorem pairwise_commandsIn (comments : List Comment) (bot : Account) :
    (commandsIn comments bot).Pairwise fun a b => a.notAfter b = true := by
  have horder : (Comment.inOrder (comments.filter fun c => c.author != bot)).Pairwise
      fun a b => a.moment.le b.moment = true := Comment.pairwise_inOrder _
  refine List.pairwise_filterMap.mpr (List.pairwise_filterMap.mpr (horder.imp ?_))
  intro a b hab i hi j hj c hc d hd
  obtain ⟨line, -, rfl⟩ := Option.map_eq_some_iff.mp hi
  obtain ⟨line', -, rfl⟩ := Option.map_eq_some_iff.mp hj
  obtain ⟨q, -, rfl⟩ := Option.map_eq_some_iff.mp hc
  obtain ⟨q', -, rfl⟩ := Option.map_eq_some_iff.mp hd
  exact Command.notAfter_iff.mpr (.inr ⟨rfl, hab⟩)

theorem policyAfter_ofComment? (author : Account) (roleOf : Account → Option Role) (p : Policy)
    (c : Comment) : ((ofComment? c).bind command?).elim p (Ledger.policyAfter author roleOf p) =
      p.heed author roleOf (c.author, c.body) := by
  unfold ofComment? Policy.heed requestIn?
  cases firstLine? c.body with
  | none => rfl
  | some line =>
    cases h : line.2.request? with
    | none => simp [command?, h]
    | some q =>
      simp only [Option.map_some, Option.bind_some, command?, h, Option.elim_some]
      rfl

theorem policyAfter_ofDescription? (roleOf : Account → Option Role) (p : Policy)
    (change : ChangeRequest) :
    ((ofDescription? change).bind command?).elim p (Ledger.policyAfter change.author roleOf p) =
      p.heed change.author roleOf (change.author, change.description) := by
  unfold ofDescription? Policy.heed requestIn?
  cases firstLine? change.description with
  | none => rfl
  | some line =>
    cases h : line.2.request? with
    | none => simp [command?, h]
    | some q =>
      simp only [Option.map_some, Option.bind_some, command?, h, Option.elim_some]
      rfl

theorem foldl_policyAfter_commandsIn (author : Account) (roleOf : Account → Option Role)
    (p : Policy) (comments : List Comment) (bot : Account) :
    (commandsIn comments bot).foldl (Ledger.policyAfter author roleOf) p =
      ((Comment.inOrder (comments.filter fun c => c.author != bot)).map
        fun c => (c.author, c.body)).foldl (Policy.heed author roleOf) p := by
  unfold commandsIn commands
  rw [List.filterMap_filterMap]
  generalize Comment.inOrder (comments.filter fun c => c.author != bot) = cs
  induction cs generalizing p with
  | nil => rfl
  | cons c cs ih =>
    rw [List.map_cons, List.foldl_cons, ← policyAfter_ofComment?, ← ih, List.filterMap_cons]
    cases (ofComment? c).bind command? <;> rfl

end Invocation

/-- **The policy that a pass derives** is the one by the texts. -/
theorem Snapshot.derived_eq (s : Snapshot) (bot : Account) (roleOf : Account → Option Role) :
    derived roleOf bot s.change s.comments = s.policy bot roleOf := by
  have hdescription : ∀ d ∈ Invocation.commands (Invocation.ofDescription? s.change).toList,
      d.source = .description := fun d => Invocation.source_of_mem_described
  have hcomment : ∀ c ∈ Invocation.commandsIn s.comments bot, ∃ id, c.source = .comment id :=
    fun c => Invocation.source_of_mem_commandsIn
  have hfirst : (Ledger.replay .default (Invocation.commands
      (Invocation.ofDescription? s.change).toList) s.change.author roleOf).policy =
      Policy.heed s.change.author roleOf .default (s.change.author, s.change.description) := by
    have htoList : Invocation.commands (Invocation.ofDescription? s.change).toList =
        ((Invocation.ofDescription? s.change).bind Invocation.command?).toList := by
      cases Invocation.ofDescription? s.change with
      | none => rfl
      | some i => cases h : i.command? <;> simp [Invocation.commands, h]
    rw [← Invocation.policyAfter_ofDescription?, htoList]
    cases (Invocation.ofDescription? s.change).bind Invocation.command? with
    | none =>
      rw [Option.toList_none, Ledger.replay, Command.inOrder_of_pairwise .nil]
      rfl
    | some d => exact policy_replay_singleton roleOf s.change.author d
  rw [derived, Invocation.commands_extract, policy_replay_description hdescription hcomment, hfirst,
    Command.inOrder_of_pairwise (Invocation.pairwise_commandsIn _ _),
    Invocation.foldl_policyAfter_commandsIn]
  rfl

/-! ### The reviews -/

/-- A minimum that a policy does not ask for is met. -/
theorem Policy.metBy_iff {p : Policy} {reviews : List Review} {roleOf : Account → Option Role} :
    p.MetBy reviews roleOf ↔
      p.total ≤
          ((approvers reviews).filter fun a => ∀ role ∈ roleOf a, Role.authors ≤ role).card ∧
        ∀ r, p.minimumFor r ≤
          ((approvers reviews).filter fun a => ∃ role ∈ roleOf a, r ≤ role).card := by
  constructor
  · rintro ⟨h, hminimums⟩
    refine ⟨h, fun r => ?_⟩
    cases hm : p.minimums.get? r with
    | none => simp [minimumFor, hm]
    | some m => simpa [minimumFor, hm] using hminimums r m hm
  · rintro ⟨h, hminimum⟩
    refine ⟨h, fun r m hm => ?_⟩
    have := hminimum r
    rwa [minimumFor, hm] at this

section Ready

variable {p : Policy} {reviews : List Review} {roleOf : Account → Option Role}

/-- **What is ready meets its policy**: no counter shows more than was counted. -/
theorem Policy.metBy_of_ready (h : (p.readiness reviews roleOf).ready = true) :
    p.MetBy reviews roleOf := by
  rw [readiness_ready_iff, Approval.countP_countsForTotal] at h
  simp only [Approval.countP_countsFor] at h
  exact metBy_iff.mpr ⟨h.1.trans (Tally.word_le _), fun r => (h.2 r).trans (Tally.word_le _)⟩

/-- **Readiness by the accounts that approve**, as long as no counter overflows. -/
theorem Policy.readiness_ready_iff_metBy (hcount : (approvers reviews).card < UInt32.size) :
    (p.readiness reviews roleOf).ready = true ↔ p.MetBy reviews roleOf := by
  rw [readiness_ready_iff, metBy_iff, Approval.countP_countsForTotal]
  simp only [Approval.countP_countsFor, Tally.word_card_filter hcount]

end Ready

/-! ### The gate -/

namespace Reconciler

theorem metBy_of_ready_planFor (r : Reconciler) (id : String) (w : World) {s : Snapshot}
    (h : (r.planFor id w s).readiness.ready = true) :
    (s.policy r.settings.botAccount w.census.roleOf).MetBy s.reviews w.census.roleOf := by
  rw [← Snapshot.derived_eq]
  exact Policy.metBy_of_ready h

theorem readiness_planFor (r : Reconciler) (id : String) (w : World) {s : Snapshot}
    (hcount : (approvers s.reviews).card < UInt32.size) :
    (r.planFor id w s).readiness.ready = true ↔
      (s.policy r.settings.botAccount w.census.roleOf).MetBy s.reviews w.census.roleOf := by
  rw [← Snapshot.derived_eq, ← Policy.readiness_ready_iff_metBy hcount]
  rfl

end Reconciler

/-- **The gate answers from the facts.** Where no fault waits and nobody else acts, whatever is
remembered, it answers exactly if there is a second for every reply that its pass owes. It opens
only if the reviews of the change request meet the policy of its texts, and does so then as long as
fewer than `2 ^ 32` accounts approve. If it does not open, it says what is short. -/
theorem checkGate_allowed_iff (r : Reconciler) (action : GateAction) {id : String} {w : World}
    {s : Snapshot} (hs : w.forge.snapshot? id = some s) (hfaults : w.faults = [])
    (halone : w.interruptions = {}) (hplaced : w.memory.WellPlaced) :
    let met := (s.policy r.settings.botAccount w.census.roleOf).MetBy s.reviews w.census.roleOf
    ((∃ answer, (r.checkGate id action w).1 = .ok answer) ↔ r.HasTime id w s) ∧
    ∀ answer, (r.checkGate id action w).1 = .ok answer →
      (answer = .allowed → met) ∧
      ((approvers s.reviews).card < 2 ^ 32 → met → answer = .allowed) ∧
      (answer ≠ .allowed →
        ∃ e, answer = .blocked (.unready e) (BlockReason.message action (.unready e))) := by
  intro met
  have hhosts : w.HostsAlone id s := ⟨hs, trivial, halone⟩
  refine ⟨r.exists_answer_iff hhosts hplaced hfaults action, fun answer hanswer => ?_⟩
  rw [Reconciler.answer_of_checkGate hhosts hplaced hanswer, GateDecision.ofReadiness?]
  split_ifs with hready
  · exact ⟨fun _ => r.metBy_of_ready_planFor id w hready, fun _ _ => rfl,
      fun hnot => absurd rfl hnot⟩
  · refine ⟨fun hopen => ?_, fun hcount hmet => ?_, fun _ => ⟨_, rfl⟩⟩
    · cases hopen
    · exact absurd ((r.readiness_planFor id w hcount).mpr hmet) hready

/-- Alice asks for a reviewer, bob tries to do without, and rev approves at last. -/
def approvedSnapshot : Snapshot where
  change := ⟨"1", "alice", "/reviewers 1 reviewers", ⟨0⟩, Dict.empty⟩
  comments := [⟨"c1", "bob", "/reviewers 0", ⟨⟨1⟩, 1⟩⟩]
  reviews := [⟨"rev", .approved, ⟨⟨3⟩, 2⟩⟩, ⟨"rev", .disapproved, ⟨⟨2⟩, 1⟩⟩]

/-- A world in which earlier passes have left a context that has nothing to do with the facts. -/
def approvedWorld : World where
  forge := (Forge.empty "revgate-bot").insert approvedSnapshot
  census := RoleTable.empty.insert "rev" .reviewers
  memory := ⟨[⟨7, ⟨some 9, none, some false, 6⟩⟩], Dict.empty.insert "1" 0⟩

/-- The gate opens for alice's change request, for which her request has set the policy. -/
theorem checkGate_approvedWorld :
    (approvedWorld.forge.snapshot? "1" = some approvedSnapshot ∧ approvedWorld.faults = [] ∧
      approvedWorld.interruptions = {} ∧ approvedWorld.memory.WellPlaced) ∧
    approvedSnapshot.policy "revgate-bot" approvedWorld.census.roleOf =
      ⟨1, { reviewers := some 1 }⟩ ∧
    (approvedSnapshot.policy "revgate-bot" approvedWorld.census.roleOf).MetBy
      approvedSnapshot.reviews approvedWorld.census.roleOf ∧
    ((Reconciler.ofSettings {}).checkGate "1" .integrate approvedWorld).1 = .ok .allowed := by
  have hs : approvedWorld.forge.snapshot? "1" = some approvedSnapshot := by decide +kernel
  have hplaced : approvedWorld.memory.WellPlaced := fun id place h => by
    rw [approvedWorld, Dict.get?_insert] at h
    split at h
    · cases h
      decide
    · cases h
  have hpolicy : approvedSnapshot.policy "revgate-bot" approvedWorld.census.roleOf =
      ⟨1, { reviewers := some 1 }⟩ := by decide +kernel
  have hmet : (approvedSnapshot.policy "revgate-bot" approvedWorld.census.roleOf).MetBy
      approvedSnapshot.reviews approvedWorld.census.roleOf := by
    rw [hpolicy]
    refine ⟨?_, fun r m hm => ?_⟩
    · rw [Approval.approvers_eq_toFinset]
      decide +kernel
    · rw [Approval.approvers_eq_toFinset]
      cases r <;> cases hm
      decide +kernel
  have hcount : (approvers approvedSnapshot.reviews).card < 2 ^ 32 := by
    rw [Approval.approvers_eq_toFinset]
    decide +kernel
  have htime : (Reconciler.ofSettings {}).HasTime "1" approvedWorld approvedSnapshot := by
    decide +kernel
  obtain ⟨hanswers, hsound⟩ := checkGate_allowed_iff (.ofSettings {}) .integrate hs rfl rfl hplaced
  obtain ⟨answer, hanswer⟩ := hanswers.mpr htime
  exact ⟨⟨hs, rfl, rfl, hplaced⟩, hpolicy, hmet,
    (hsound answer hanswer).2.1 hcount hmet ▸ hanswer⟩

/-! ### Where the gate falls short -/

/-- A change request that asks for nothing, with the approvals of a crowd. -/
def crowdedSnapshot (n : Nat) : Snapshot := ⟨⟨"1", "alice", "", ⟨0⟩, Dict.empty⟩, [], crowd n⟩

theorem policy_crowdedSnapshot (n : Nat) (bot : Account) (roleOf : Account → Option Role) :
    (crowdedSnapshot n).policy bot roleOf = .default := by
  have hnone : requestIn? (crowdedSnapshot n).change.description = none := by
    change requestIn? "" = none
    decide +kernel
  have hvoices : (crowdedSnapshot n).voices bot =
      [("alice", (crowdedSnapshot n).change.description)] := by
    simp [Snapshot.voices, Comment.inOrder, crowdedSnapshot]
  rw [Snapshot.policy, hvoices, List.foldl_cons, List.foldl_nil, Policy.heed, hnone]

theorem metBy_crowdedSnapshot {n : Nat} (hn : 1 ≤ n) (bot : Account)
    {roleOf : Account → Option Role} (hroles : ∀ a, ∀ role ∈ roleOf a, Role.authors ≤ role) :
    ((crowdedSnapshot n).policy bot roleOf).MetBy (crowdedSnapshot n).reviews roleOf := by
  rw [policy_crowdedSnapshot, Policy.metBy_iff, Finset.filter_true_of_mem fun a _ => hroles a]
  exact ⟨(card_approvers_crowd n).symm ▸ hn, fun r => by cases r <;> exact Nat.zero_le _⟩

/-- The gate blocks a crowd whose number the counter shows as none. -/
theorem checkGate_crowdedSnapshot (r : Reconciler) (action : GateAction) {n : Nat}
    (hn : Tally.word n = 0) :
    (r.checkGate "1" action (worldOf (crowdedSnapshot n))).1 ≠ .ok .allowed := by
  intro hallowed
  have hhosts : (worldOf (crowdedSnapshot n)).HostsAlone "1" (crowdedSnapshot n) :=
    hostsAlone_worldOf (crowdedSnapshot n)
  have hanswer := Reconciler.answer_of_checkGate hhosts Memory.wellPlaced_empty hallowed
  have hready : ¬ (r.planFor "1" (worldOf (crowdedSnapshot n))
      (crowdedSnapshot n)).readiness.ready = true := by
    change ¬ ((derived RoleTable.empty.roleOf r.settings.botAccount (crowdedSnapshot n).change
      (crowdedSnapshot n).comments).readiness (crowd n) RoleTable.empty.roleOf).ready = true
    rw [Snapshot.derived_eq, policy_crowdedSnapshot, ready_crowd_iff, hn]
    · exact Nat.not_succ_le_zero 0
    · exact fun a role hrole => by cases hrole
  rw [GateDecision.ofReadiness?, if_neg hready] at hanswer
  cases hanswer

/-- **The gate gives no answer** in the last second, where a reply is owed to a change request that
does not meet its policy; **and it blocks** a change request with `2 ^ 32` approvals, which does. -/
theorem gate_falls_short :
    (¬ (lateSnapshot.policy "revgate-bot" (worldOf lateSnapshot).census.roleOf).MetBy
        lateSnapshot.reviews (worldOf lateSnapshot).census.roleOf ∧
      ((Reconciler.ofSettings {}).checkGate "1" .integrate (worldOf lateSnapshot)).1 =
        .error (.call .aborted)) ∧
    (((crowdedSnapshot (2 ^ 32)).policy "revgate-bot"
        (worldOf (crowdedSnapshot (2 ^ 32))).census.roleOf).MetBy
        (crowdedSnapshot (2 ^ 32)).reviews (worldOf (crowdedSnapshot (2 ^ 32))).census.roleOf ∧
      ((Reconciler.ofSettings {}).checkGate "1" .integrate (worldOf (crowdedSnapshot (2 ^ 32)))).1 ≠
        .ok .allowed) := by
  refine ⟨⟨fun hmet => ?_, by decide +kernel⟩, metBy_crowdedSnapshot (by decide) _ ?_,
    checkGate_crowdedSnapshot _ _ (by decide)⟩
  · have hpolicy : (lateSnapshot.policy "revgate-bot"
        (worldOf lateSnapshot).census.roleOf).total = 2 := by decide +kernel
    have htotal := hmet.total
    rw [hpolicy] at htotal
    exact absurd htotal (by decide)
  · exact fun a role hrole => by cases hrole

end ReviewQuorum
