import ReviewQuorum.Proofs.OwnRulings
import ReviewQuorum.Proofs.PastRulings

/-! # A description that becomes a comment

The command of a description is read, ordered and answered apart from those of comments. Here the
text of the description is moved into a comment of the author's that is earlier than all others,
and the description is left empty (`Snapshot.moveDescription`).

If the author is not the bot, the text is heard in both places, and first in both
(`Snapshot.invocations_moveDescription`). A ruling depends on the account, the request and the
policy before it, and the move changes none of them. So the policy stays, and the rulings do but for
the source of the first one, if the text makes a request (`Snapshot.rulings_moveDescription`). The
reply to the text says the same above another marker, and the gate answers as before if there is
still time for the replies (`description_as_comment`). -/

namespace ReviewQuorum

/-! ### The move -/

/-- An invocation as it would stand in a comment. -/
def Invocation.inComment (id : String) (moment : Moment) (i : Invocation) : Invocation :=
  { i with source := .comment id, moment := moment }

/-- A ruling as it would be on a command in a comment. -/
def Ruling.inComment (id : String) (r : Ruling) : Ruling := { r with source := .comment id }

namespace Snapshot

/-- A comment of the author's with the text of the description. -/
def describing (s : Snapshot) (id : String) (moment : Moment) : Comment :=
  ⟨id, s.change.author, s.change.description, moment⟩

/-- The change request with the text of its description in such a comment, which is listed behind a
number of others. -/
def moveDescription (s : Snapshot) (id : String) (moment : Moment) (behind : Nat) : Snapshot where
  change := { s.change with description := "" }
  comments := s.comments.take behind ++ s.describing id moment :: s.comments.drop behind
  reviews := s.reviews

/-- The invocations of a change request. -/
def invocations (s : Snapshot) (bot : Account) : List Invocation :=
  Invocation.extract s.change s.comments bot

/-- The replies to all invocations of a change request, with the keys of their sources. -/
def replies (s : Snapshot) (bot : Account) (roleOf : Account → Option Role) :
    List (String × String) :=
  Reply.renderAll (s.invocations bot) (s.ledger bot roleOf)

end Snapshot

/-- The invocations in comments. -/
def Invocation.inComments (comments : List Comment) (bot : Account) : List Invocation :=
  (Comment.inOrder (comments.filter fun c => c.author != bot)).filterMap ofComment?

/-! ### What is found -/

namespace Snapshot

variable {s : Snapshot} {bot : Account} {roleOf : Account → Option Role} {id : String}
  {moment : Moment}

theorem ofDescription?_moveDescription (s : Snapshot) (id : String) (moment : Moment)
    (behind : Nat) :
    Invocation.ofDescription? (s.moveDescription id moment behind).change = none := by
  have hempty : Invocation.firstLine? "" = none := by decide +kernel
  rw [Invocation.ofDescription?, moveDescription, hempty, Option.map_none]

theorem ofComment?_describing (s : Snapshot) (id : String) (moment : Moment) :
    Invocation.ofComment? (s.describing id moment) =
      (Invocation.ofDescription? s.change).map (Invocation.inComment id moment) := by
  rw [Invocation.ofComment?, Invocation.ofDescription?, Option.map_map]
  rfl

/-- **The text is found in both places**, and before those of the other comments. -/
theorem invocations_moveDescription (hauthor : s.change.author ≠ bot)
    (hfirst : ∀ c ∈ s.comments, moment.lt c.moment = true) (behind : Nat) :
    (s.moveDescription id moment behind).invocations bot =
      ((Invocation.ofDescription? s.change).map (Invocation.inComment id moment)).toList ++
        Invocation.inComments s.comments bot := by
  have hheard : ((s.describing id moment).author != bot) = true := bne_iff_ne.mpr hauthor
  have hothers : (s.comments.take behind).filter (fun c => c.author != bot) ++
      (s.comments.drop behind).filter (fun c => c.author != bot) =
        s.comments.filter fun c => c.author != bot := by
    rw [← List.filter_append, List.take_append_drop]
  have hsort : Comment.inOrder ((s.moveDescription id moment behind).comments.filter
      fun c => c.author != bot) =
        s.describing id moment :: Comment.inOrder (s.comments.filter fun c => c.author != bot) := by
    have hcons : (s.describing id moment :: s.comments.drop behind).filter
        (fun c => c.author != bot) =
          s.describing id moment :: (s.comments.drop behind).filter fun c => c.author != bot :=
      List.filter_cons_of_pos hheard
    simp only [moveDescription, List.filter_append]
    rw [hcons, Comment.inOrder_of_first, hothers]
    intro c hc
    rw [hothers] at hc
    exact hfirst c (List.mem_filter.mp hc).1
  rw [invocations, Invocation.extract, ofDescription?_moveDescription, Option.toList_none,
    List.nil_append, hsort, List.filterMap_cons, ofComment?_describing]
  cases Invocation.ofDescription? s.change <;> rfl

/-! ### What is ruled -/

theorem rulings_ledger (s : Snapshot) (bot : Account) (roleOf : Account → Option Role) :
    (s.ledger bot roleOf).rulings = Ledger.ruleOnAll s.change.author roleOf .default
      (Invocation.commands (s.invocations bot)) := by
  rw [ledger, Ledger.rulings_replay, Invocation.inOrder_commands_extract]
  rfl

theorem policy_ledger (s : Snapshot) (bot : Account) (roleOf : Account → Option Role) :
    (s.ledger bot roleOf).policy = (Invocation.commands (s.invocations bot)).foldl
      (Ledger.policyAfter s.change.author roleOf) .default := by
  rw [ledger, Ledger.policy_replay, Invocation.inOrder_commands_extract]
  rfl

section Moved
variable (roleOf) (hauthor : s.change.author ≠ bot)
  (hfirst : ∀ c ∈ s.comments, moment.lt c.moment = true) (behind : Nat)
include hauthor hfirst

/-- **The commands** are the same, but for where the first one stands. -/
theorem commands_moveDescription :
    (Invocation.described? s.change = none ∧
      Invocation.commands ((s.moveDescription id moment behind).invocations bot) =
        Invocation.commands (s.invocations bot)) ∨
    ∃ q text rest, Invocation.described? s.change = some q ∧
      Invocation.commands (s.invocations bot) =
        ⟨s.change.author, q, text, .description, ⟨s.change.createdAt, 0⟩⟩ :: rest ∧
      Invocation.commands ((s.moveDescription id moment behind).invocations bot) =
        ⟨s.change.author, q, text, .comment id, moment⟩ :: rest := by
  rw [invocations_moveDescription hauthor hfirst]
  simp only [invocations, Invocation.extract, Invocation.described?, Invocation.ofDescription?,
    Invocation.commands, List.filterMap_append]
  cases Invocation.firstLine? s.change.description with
  | none => exact .inl ⟨rfl, rfl⟩
  | some line =>
    obtain ⟨text, o⟩ := line
    cases o with
    | parsed q => exact .inr ⟨q, text, _, rfl, rfl, rfl⟩
    | _ => exact .inl ⟨rfl, rfl⟩

theorem policy_moveDescription : ((s.moveDescription id moment behind).ledger bot roleOf).policy =
    (s.ledger bot roleOf).policy := by
  rw [policy_ledger, policy_ledger]
  rcases commands_moveDescription hauthor hfirst behind with
    ⟨-, hsame⟩ | ⟨q, text, rest, -, hthere, hhere⟩
  · rw [hsame]
    rfl
  · rw [hhere, hthere]
    rfl

/-- **The rulings** are the same, but for the source of the first one if the text makes a request.
-/
theorem rulings_moveDescription :
    (Invocation.described? s.change = none ∧
      ((s.moveDescription id moment behind).ledger bot roleOf).rulings =
        (s.ledger bot roleOf).rulings) ∨
    ∃ first rest, Invocation.described? s.change = some first.request ∧
      first.source = .description ∧ (s.ledger bot roleOf).rulings = first :: rest ∧
      ((s.moveDescription id moment behind).ledger bot roleOf).rulings =
        first.inComment id :: rest := by
  rw [rulings_ledger, rulings_ledger]
  rcases commands_moveDescription hauthor hfirst behind with
    ⟨hnone, hsame⟩ | ⟨q, text, rest, hq, hthere, hhere⟩
  · rw [hsame]
    exact .inl ⟨hnone, rfl⟩
  · rw [hhere, hthere]
    exact .inr ⟨_, _, hq, rfl, rfl, rfl⟩

/-! ### What is replied -/

theorem message_moveDescription {i : Invocation}
    (hi : Invocation.ofDescription? s.change = some i) :
    Reply.message i.outcome
        (((s.moveDescription id moment behind).ledger bot roleOf).rulingFor? (.comment id)) =
      Reply.message i.outcome ((s.ledger bot roleOf).rulingFor? .description) := by
  rcases rulings_moveDescription roleOf hauthor hfirst behind with
    ⟨hnone, -⟩ | ⟨first, rest, -, hsource, hthere, hhere⟩
  · have hno : i.outcome.request? = none := by
      rwa [Invocation.described?, hi, Option.bind_some] at hnone
    exact Reply.message_of_no_request hno _ _
  · have hfound : (s.ledger bot roleOf).rulingFor? .description = some first := by
      rw [Ledger.rulingFor?, hthere, List.find?_cons_of_pos (by simp [hsource])]
    have hfound' : ((s.moveDescription id moment behind).ledger bot roleOf).rulingFor?
        (.comment id) = some (first.inComment id) := by
      rw [Ledger.rulingFor?, hhere, List.find?_cons_of_pos (by simp [Ruling.inComment])]
    rw [hfound, hfound']
    cases i.outcome with
    | outOfRange requested bound role => cases bound <;> rfl
    | _ => rfl

theorem rulingFor?_moveDescription {other : String} (hother : other ≠ id) :
    ((s.moveDescription id moment behind).ledger bot roleOf).rulingFor? (.comment other) =
      (s.ledger bot roleOf).rulingFor? (.comment other) := by
  rcases rulings_moveDescription roleOf hauthor hfirst behind with
    ⟨-, hsame⟩ | ⟨first, rest, -, hsource, hthere, hhere⟩
  · rw [Ledger.rulingFor?, Ledger.rulingFor?, hsame]
  · rw [Ledger.rulingFor?, Ledger.rulingFor?, hthere, hhere,
      List.find?_cons_of_neg (by simpa [Ruling.inComment] using hother.symm),
      List.find?_cons_of_neg (by simp [hsource])]

/-- **The replies**: the one to the text differs in its key and its marker only, and the others are
the same unless another comment has the identifier as well. -/
theorem replies_moveDescription {i : Invocation}
    (hi : Invocation.ofDescription? s.change = some i) :
    ∃ text rest rest',
      s.replies bot roleOf =
        (Source.description.key, text ++ "\n" ++ Marker.ofSource .description) :: rest ∧
      (s.moveDescription id moment behind).replies bot roleOf =
        ((Source.comment id).key, text ++ "\n" ++ Marker.ofSource (.comment id)) :: rest' ∧
      ((∀ c ∈ s.comments, c.id ≠ id) → rest' = rest) := by
  let l := s.ledger bot roleOf
  let l' := (s.moveDescription id moment behind).ledger bot roleOf
  have hthere : s.invocations bot = i :: Invocation.inComments s.comments bot := by
    rw [invocations, Invocation.extract, hi]
    rfl
  have hhere : (s.moveDescription id moment behind).invocations bot =
      i.inComment id moment :: Invocation.inComments s.comments bot := by
    rw [invocations_moveDescription hauthor hfirst, hi]
    rfl
  have hsource : i.source = .description := Invocation.of_ofDescription? hi
  refine ⟨"@" ++ i.actor ++ " " ++ Reply.message i.outcome (l.rulingFor? .description),
    Reply.renderAll (Invocation.inComments s.comments bot) l,
    Reply.renderAll (Invocation.inComments s.comments bot) l', ?_, ?_, fun hfresh => ?_⟩
  · rw [replies, hthere, Reply.renderAll, List.map_cons, Reply.render, hsource]
    rfl
  · rw [replies, hhere, ← message_moveDescription roleOf hauthor hfirst behind hi]
    rfl
  · refine List.map_congr_left fun j hj => ?_
    obtain ⟨c, hc, hjc⟩ := List.mem_filterMap.mp hj
    have hmem : c ∈ s.comments :=
      (List.mem_filter.mp ((List.mergeSort_perm _ _).mem_iff.mp hc)).1
    have hsame : l'.rulingFor? j.source = l.rulingFor? j.source := by
      rw [(Invocation.of_ofComment? hjc).1]
      exact rulingFor?_moveDescription roleOf hauthor hfirst behind (hfresh c hmem)
    rw [hsame]

theorem replies_moveDescription_of_none (hnone : Invocation.ofDescription? s.change = none) :
    (s.moveDescription id moment behind).replies bot roleOf = s.replies bot roleOf := by
  have hsame : (s.moveDescription id moment behind).invocations bot = s.invocations bot := by
    rw [invocations_moveDescription hauthor hfirst, invocations, Invocation.extract, hnone]
    rfl
  have hledger : (s.moveDescription id moment behind).ledger bot roleOf = s.ledger bot roleOf := by
    change Ledger.replay .default
      (Invocation.commands ((s.moveDescription id moment behind).invocations bot))
      s.change.author roleOf = _
    rw [hsame]
    rfl
  rw [replies, hsame, hledger]
  rfl

end Moved

end Snapshot

/-! ### What the gate answers -/

namespace Reconciler

theorem readiness_planFor_eq (r : Reconciler) (id : String) (w : World) (s : Snapshot) :
    (r.planFor id w s).readiness =
      (s.ledger r.settings.botAccount w.census.roleOf).policy.readiness s.reviews
        w.census.roleOf := rfl

end Reconciler

/-- **A description counts like a comment.** If its text is moved into a comment of the author's,
who is not the bot, and the comment is earlier than all others, then policy, tally and readiness
stay. So do the rulings, but for the source of the first one if the text makes a request. The reply
to the text, if it has a command line, is the same text above another marker, and the other replies
are the same if the identifier of the comment is new. The gate gives one answer to both, where there
is time for the replies. -/
theorem description_as_comment (r : Reconciler) {s : Snapshot} (roleOf : Account → Option Role)
    (id : String) {moment : Moment} (behind : Nat)
    (hauthor : s.change.author ≠ r.settings.botAccount)
    (hfirst : ∀ c ∈ s.comments, moment.lt c.moment = true) :
    let bot := r.settings.botAccount
    let s' := s.moveDescription id moment behind
    let l := s.ledger bot roleOf
    let l' := s'.ledger bot roleOf
    (l'.policy = l.policy ∧
      l'.policy.tally s'.reviews roleOf = l.policy.tally s.reviews roleOf ∧
      l'.policy.readiness s'.reviews roleOf = l.policy.readiness s.reviews roleOf) ∧
    (Invocation.described? s.change = none ∧ l'.rulings = l.rulings ∨
      ∃ first rest, Invocation.described? s.change = some first.request ∧
        first.source = .description ∧ l.rulings = first :: rest ∧
        l'.rulings = { first with source := .comment id } :: rest) ∧
    ((Invocation.ofDescription? s.change = none → s'.replies bot roleOf = s.replies bot roleOf) ∧
      ∀ i, Invocation.ofDescription? s.change = some i → ∃ text rest rest',
        s.replies bot roleOf =
          (Source.description.key, text ++ "\n" ++ Marker.ofSource .description) :: rest ∧
        s'.replies bot roleOf =
          ((Source.comment id).key, text ++ "\n" ++ Marker.ofSource (.comment id)) :: rest' ∧
        ((∀ c ∈ s.comments, c.id ≠ id) → rest' = rest)) ∧
    ∀ changeId w w', w.HostsAlone changeId s → w'.HostsAlone changeId s' →
      w.memory.WellPlaced → w'.memory.WellPlaced → w'.census = w.census → ∀ action,
      (w.faults = [] → ((∃ answer, (r.checkGate changeId action w).1 = .ok answer) ↔
        r.HasTime changeId w s)) ∧
      (w'.faults = [] → ((∃ answer, (r.checkGate changeId action w').1 = .ok answer) ↔
        r.HasTime changeId w' s')) ∧
      ∀ answer answer', (r.checkGate changeId action w).1 = .ok answer →
        (r.checkGate changeId action w').1 = .ok answer' → answer' = answer := by
  intro bot s' l l'
  have hpolicy : l'.policy = l.policy :=
    Snapshot.policy_moveDescription roleOf hauthor hfirst behind
  refine ⟨⟨hpolicy, ?_, ?_⟩, Snapshot.rulings_moveDescription roleOf hauthor hfirst behind,
    ⟨Snapshot.replies_moveDescription_of_none roleOf hauthor hfirst behind,
      fun i hi => Snapshot.replies_moveDescription roleOf hauthor hfirst behind hi⟩, ?_⟩
  · rw [hpolicy]
    rfl
  · rw [hpolicy]
    rfl
  · intro changeId w w' hs hs' hm hm' hcensus action
    refine ⟨fun hfaults => r.exists_answer_iff hs hm hfaults action,
      fun hfaults => r.exists_answer_iff hs' hm' hfaults action,
      fun answer answer' h h' => ?_⟩
    rw [Reconciler.answer_of_checkGate hs hm h, Reconciler.answer_of_checkGate hs' hm' h',
      Reconciler.readiness_planFor_eq, Reconciler.readiness_planFor_eq, hcensus,
      Snapshot.policy_moveDescription _ hauthor hfirst behind]
    rfl

/-- Alice asks for three reviewers in a description, and bob, a committer, asks for one. -/
def raisedByDescription : Snapshot :=
  ⟨⟨"1", "alice", "Adds a parser.\n/reviewers 3", ⟨5⟩, Dict.empty⟩,
    [⟨"c1", "bob", "/reviewers 1", ⟨⟨6⟩, 1⟩⟩], []⟩

/-- A world with a change request, in which bob is a committer. -/
def bobsWorld (s : Snapshot) : World where
  forge := (Forge.empty "revgate-bot").insert s
  census := RoleTable.empty.insert "bob" .committers

theorem hostsAlone_bobsWorld (s : Snapshot) : (bobsWorld s).HostsAlone s.change.id s :=
  ⟨Forge.snapshot?_put _ _ s, trivial, rfl⟩

/-- Bob may not lower what alice has asked for, whether she has done so in a description or in a
comment. -/
theorem description_as_comment_raised :
    let s := raisedByDescription
    let s' := s.moveDescription "c0" ⟨⟨0⟩, 0⟩ 1
    let bot := plainReconciler.settings.botAccount
    let roleOf := (bobsWorld s).census.roleOf
    (s.change.author ≠ bot ∧
      ∀ c ∈ s.comments, (⟨⟨0⟩, 0⟩ : Moment).lt c.moment = true) ∧
    (s'.ledger bot roleOf).policy = ⟨3, {}⟩ ∧
    (∃ first rest, (s.ledger bot roleOf).rulings = first :: rest ∧
      (s'.ledger bot roleOf).rulings = { first with source := .comment "c0" } :: rest ∧
      rest.map (·.decision) = [.denied .decreaseNotPermitted]) ∧
    ∃ answer, (plainReconciler.checkGate "1" .integrate (bobsWorld s)).1 = .ok answer ∧
      (plainReconciler.checkGate "1" .integrate (bobsWorld s')).1 = .ok answer := by
  intro s s' bot roleOf
  have hauthor : s.change.author ≠ bot := by decide
  have hfirst : ∀ c ∈ s.comments, (⟨⟨0⟩, 0⟩ : Moment).lt c.moment = true := by decide
  obtain ⟨⟨hpolicy, -⟩, hrulings, -, hgate⟩ :=
    description_as_comment plainReconciler roleOf "c0" 1 hauthor hfirst
  refine ⟨⟨hauthor, hfirst⟩, ?_, ?_, ?_⟩
  · refine hpolicy.trans ?_
    rw [Snapshot.policy_ledger]
    decide +kernel
  · have hthree : Invocation.described? s.change ≠ none := by decide +kernel
    obtain ⟨first, rest, -, -, hthere, hhere⟩ := hrulings.resolve_left fun h => hthree h.1
    refine ⟨first, rest, hthere, hhere, ?_⟩
    have hall : ((s.ledger bot roleOf).rulings.map (·.decision)).tail =
        [.denied .decreaseNotPermitted] := by
      rw [Snapshot.rulings_ledger]
      decide +kernel
    rwa [hthere] at hall
  · obtain ⟨hanswers, hanswers', hsame⟩ := hgate "1" (bobsWorld s) (bobsWorld s')
      (hostsAlone_bobsWorld s) (hostsAlone_bobsWorld s') Memory.wellPlaced_empty
      Memory.wellPlaced_empty rfl .integrate
    obtain ⟨answer, h⟩ := (hanswers rfl).mpr (Reconciler.hasTime_of_lt (by decide))
    obtain ⟨answer', h'⟩ := (hanswers' rfl).mpr (Reconciler.hasTime_of_lt (by decide))
    exact ⟨answer, h, hsame answer answer' h h' ▸ h'⟩

/-- Alice asks for two reviewers, and nobody has commented. -/
def askedByDescription : Snapshot := ⟨⟨"1", "alice", "/reviewers 2", ⟨0⟩, Dict.empty⟩, [], []⟩

/-- **In the last second of the clock** the only comment gets no reply, and the gate gives no answer
any more. -/
theorem answer_lost_in_comment :
    let s := askedByDescription
    let s' := s.moveDescription "c1" ⟨.ofParts Timestamp.lastSecond 0, 1⟩ 0
    s.change.author ≠ plainReconciler.settings.botAccount ∧
    (∃ answer, (plainReconciler.checkGate "1" .integrate (bobsWorld s)).1 = .ok answer) ∧
    (plainReconciler.checkGate "1" .integrate (bobsWorld s')).1 = .error (.call .aborted) := by
  have hanswers := plainReconciler.exists_answer_iff (hostsAlone_bobsWorld askedByDescription)
    Memory.wellPlaced_empty rfl .integrate
  exact ⟨by decide, hanswers.mpr (Reconciler.hasTime_of_lt (by decide)), by decide +kernel⟩

end ReviewQuorum
