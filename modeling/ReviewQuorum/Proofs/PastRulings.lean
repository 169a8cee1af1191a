import ReviewQuorum.Proofs.AuthorRun

/-! # Rulings stay

Whatever is written on a change request comes after what stands there: a new comment is later than
all others, and a review or a label is not read as a command. So a replay rules on the commands of a
change request as it did before anything was added, and on the new ones after them
(`Snapshot.Adds.rulings_prefix`). An invocation that had a reply would get the same one again
(`Snapshot.Adds.render_eq`).

The description comes first in every replay, so nothing is said here of an edit of it. -/

namespace ReviewQuorum

/-! ### What is written -/

namespace World

/-- **What is written on a change request**: users comment and review, replies are posted and labels
are set, whether the calls succeed or not. -/
inductive Write (id : String) (w : World) : World → Prop
  | comment (author : Account) (body : String) : Write id w (w.comment id author body)
  | review (reviewer : Account) (verdict : Verdict) :
    Write id w { w with forge := w.forge.modify id fun s => s.review reviewer verdict }
  | reply (body : String) : Write id w (w.post id body).2
  | label (label : String) (present : Bool) : Write id w (w.setLabel id label present).2

end World

/-- A change request that has grown and whose description has stayed. -/
structure Snapshot.Adds (s s' : Snapshot) : Prop where
  grows : s.Grows (fun _ => True) s'
  description : s'.change.description = s.change.description

theorem Snapshot.Adds.refl (s : Snapshot) : s.Adds s := ⟨.refl s, rfl⟩

theorem Snapshot.Adds.trans {s s' s'' : Snapshot} (h : s.Adds s') (h' : s'.Adds s'') : s.Adds s'' :=
  ⟨h.grows.trans h'.grows, h'.description.trans h.description⟩

namespace World

variable {id : String} {w w' : World} {s : Snapshot}

/-- **One thing that is written** adds to the change request, or nothing changes. -/
theorem Write.adds (hs : w.forge.snapshot? id = some s) (h : Write id w w') :
    ∃ s', w'.forge.snapshot? id = some s' ∧ s.Adds s' := by
  cases h with
  | comment author body =>
    refine ⟨s.comment author body, ?_, s.grows_comment trivial body, ?_⟩
    · rw [World.comment, Forge.modify_eq hs, Forge.snapshot?_put]
    · rw [s.change_comment]
  | review reviewer verdict =>
    refine ⟨s.review reviewer verdict, ?_, s.grows_review reviewer verdict, ?_⟩
    · rw [Forge.modify_eq hs, Forge.snapshot?_put]
    · rw [s.change_review]
  | reply body =>
    rw [post]
    obtain ⟨faults, ⟨f, hc⟩ | hc⟩ := onChange_cases hs .postComment (addReply id body)
    · rw [hc]
      exact ⟨s, hs, .refl s⟩
    · rw [hc, addReply_eq]
      split_ifs
      · exact ⟨_, Forge.snapshot?_put _ _ _, s.grows_commented trivial body, rfl⟩
      · exact ⟨s, hs, .refl s⟩
  | label label present =>
    rw [setLabel]
    obtain ⟨faults, ⟨f, hc⟩ | hc⟩ := onChange_cases hs .setLabel fun s w =>
      ((.ok (), { w with forge := { w.forge.put id (s.setLabel label present) with
        labelWrites := w.forge.labelWrites + 1 } }) : Except Failure Unit × World)
    · rw [hc]
      exact ⟨s, hs, .refl s⟩
    · rw [hc]
      exact ⟨_, Forge.snapshot?_put _ _ _, s.grows_setLabel label present, rfl⟩

/-- **All that is written** adds to the change request. -/
theorem adds_of_writes (hs : w.forge.snapshot? id = some s)
    (h : Relation.ReflTransGen (Write id) w w') :
    ∃ s', w'.forge.snapshot? id = some s' ∧ s.Adds s' := by
  induction h with
  | refl => exact ⟨s, hs, .refl s⟩
  | tail _ hwrite ih =>
    obtain ⟨s₁, hs₁, hadds₁⟩ := ih
    obtain ⟨s₂, hs₂, hadds₂⟩ := hwrite.adds hs₁
    exact ⟨s₂, hs₂, hadds₁.trans hadds₂⟩

end World

/-! ### What is replayed -/

theorem Reply.message_of_no_request {o : Outcome} (h : o.request? = none)
    (ruling ruling' : Option Ruling) : message o ruling = message o ruling' := by
  cases o with
  | parsed q => cases h
  | outOfRange requested bound role => cases bound <;> rfl
  | helpRequested => rfl
  | malformed arguments => rfl
  | unknownRole token => rfl

namespace Snapshot

/-- The ledger that follows from the commands on a change request. -/
def ledger (s : Snapshot) (bot : Account) (roleOf : Account → Option Role) : Ledger :=
  Ledger.replay .default (Invocation.commands (Invocation.extract s.change s.comments bot))
    s.change.author roleOf

variable {s s' : Snapshot} {bot : Account} {roleOf : Account → Option Role}

/-- **The rulings stay, and those on new commands follow them.** -/
theorem Adds.rulings_prefix (h : s.Adds s') :
    (s.ledger bot roleOf).rulings <+: (s'.ledger bot roleOf).rulings := by
  obtain ⟨added, hadded, -, hlater⟩ := h.grows.comments.exists_append
  have hdescription : Invocation.ofDescription? s'.change = Invocation.ofDescription? s.change := by
    rw [Invocation.ofDescription?, Invocation.ofDescription?, h.description, h.grows.author,
      h.grows.createdAt]
  have hcommands : Invocation.commands (Invocation.extract s'.change s'.comments bot) =
      Invocation.commands (Invocation.extract s.change s.comments bot) ++
        Invocation.commandsIn added bot := by
    rw [Invocation.commands_extract, Invocation.commands_extract, hdescription, hadded,
      Invocation.commandsIn_append hlater, List.append_assoc]
  rw [ledger, ledger, hcommands, h.grows.author]
  exact Ledger.rulings_prefix_replay .default (Invocation.notAfter_of_later hlater)

theorem exists_rulingFor? {i : Invocation} (hi : i ∈ Invocation.extract s.change s.comments bot)
    {q : Request} (hq : i.outcome.request? = some q) :
    ∃ ruling, (s.ledger bot roleOf).rulingFor? i.source = some ruling := by
  have hcommand : i.command? = some ⟨i.actor, q, i.rawText, i.source, i.moment⟩ := by
    rw [Invocation.command?, hq]
    rfl
  have hmem : ⟨i.actor, q, i.rawText, i.source, i.moment⟩ ∈
      Invocation.commands (Invocation.extract s.change s.comments bot) :=
    List.mem_filterMap.mpr ⟨i, hi, hcommand⟩
  exact Ledger.exists_rulingFor? hmem

/-- **An invocation gets the same reply** as before anything was added. -/
theorem Adds.render_eq (h : s.Adds s') {i : Invocation}
    (hi : i ∈ Invocation.extract s.change s.comments bot) :
    Reply.render i ((s'.ledger bot roleOf).rulingFor? i.source) =
      Reply.render i ((s.ledger bot roleOf).rulingFor? i.source) := by
  cases hq : i.outcome.request? with
  | none => rw [Reply.render, Reply.render, Reply.message_of_no_request hq]
  | some q =>
    obtain ⟨ruling, hruling⟩ : ∃ ruling, (s.ledger bot roleOf).rulingFor? i.source = some ruling :=
      exists_rulingFor? hi hq
    rw [hruling, Ledger.rulingFor?_of_prefix h.rulings_prefix hruling]

end Snapshot

/-- **New activity rewrites no ruling.** Whatever is written on a change request, apart from its
description, a replay gives the earlier rulings first, and every invocation that was there gets the
reply that it got before. -/
theorem rulings_kept (bot : Account) (roleOf : Account → Option Role) {id : String} {w w' : World}
    {s : Snapshot} (hs : w.forge.snapshot? id = some s)
    (h : Relation.ReflTransGen (World.Write id) w w') :
    ∃ s', w'.forge.snapshot? id = some s' ∧
      (s.ledger bot roleOf).rulings <+: (s'.ledger bot roleOf).rulings ∧
      ∀ i ∈ Invocation.extract s.change s.comments bot,
        Reply.render i ((s'.ledger bot roleOf).rulingFor? i.source) =
          Reply.render i ((s.ledger bot roleOf).rulingFor? i.source) := by
  obtain ⟨s', hs', hadds⟩ := World.adds_of_writes hs h
  refine ⟨s', hs', hadds.rulings_prefix, ?_⟩
  intro i hi
  exact hadds.render_eq hi

/-- The rulings on a change request of alice's. -/
def rulingsOn (w : World) : Option (List Ruling) :=
  (w.forge.snapshot? "1").map fun s => (s.ledger "revgate-bot" w.census.roleOf).rulings

theorem length_rulingsOn (w : World) :
    (rulingsOn w).map List.length = (w.forge.snapshot? "1").map fun s =>
      (Invocation.commands (Invocation.extract s.change s.comments "revgate-bot")).length := by
  cases h : w.forge.snapshot? "1" with
  | none => simp [rulingsOn, h]
  | some s => simp [rulingsOn, h, Snapshot.ledger, Ledger.length_rulings_replay]

/-- Alice has asked for two reviewers, is refused one less, and the bot tells her. -/
theorem rulings_kept_alice :
    let w := World.start (hosting "revgate-bot" "alice" "/reviewers 2") .empty
    let w' := ((alices "/reviewers 1" w).post "1" "no").2
    Relation.ReflTransGen (World.Write "1") w w' ∧ (rulingsOn w).map List.length = some 1 ∧
      (rulingsOn w').map List.length = some 2 ∧
      ∃ before after, rulingsOn w = some before ∧ rulingsOn w' = some after ∧ before <+: after := by
  intro w w'
  have hs : w.forge.snapshot? "1" =
      some ⟨⟨"1", "alice", "/reviewers 2", ⟨0⟩, Dict.empty⟩, [], []⟩ := rfl
  have hwrites : Relation.ReflTransGen (World.Write "1") w w' :=
    .tail (.single (.comment "alice" "/reviewers 1")) (.reply "no")
  obtain ⟨s', hs', hprefix, -⟩ := rulings_kept "revgate-bot" w.census.roleOf hs hwrites
  have hcensus : w'.census = w.census := by decide +kernel
  refine ⟨hwrites, ?_, ?_, _, _, ?_, ?_, hprefix⟩
  · rw [length_rulingsOn]
    decide +kernel
  · rw [length_rulingsOn]
    decide +kernel
  · rw [rulingsOn, hs]
    rfl
  · rw [rulingsOn, hs', hcensus]
    rfl

end ReviewQuorum
