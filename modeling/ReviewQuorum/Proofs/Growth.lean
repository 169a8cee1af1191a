import Mathlib.Logic.Relation
import ReviewQuorum.Proofs.SecondsLeft
import ReviewQuorum.World

/-! # How a change request grows

While passes run and users act, comments are only added: each new one has the next sequence number
and is later than all before it (`Comment.Continues`), and the author and the instant of creation
stay (`Snapshot.Grows`). Users write comments and reviews and edit the description, and
collaborators fail (`World.Act`). Neither they nor the answers to a pass do anything else to a
change request that the forge hosts, and neither touches what the reconciler remembers
(`World.Act.evolves`, `World.answer_evolves`). -/

namespace ReviewQuorum

/-! ### Comments -/

namespace Comment

/-- **Lists of comments that continue another one** with comments of certain accounts. -/
inductive Continues (who : Account → Prop) (cs : List Comment) : List Comment → Prop
  | refl : Continues who cs cs
  | add {ds : List Comment} {c : Comment} (h : Continues who cs ds) (hwho : who c.author)
      (hnumber : c.moment.sequence = ((lastSequence? ds).getD 0 + 1) % UInt64.size)
      (htime : ∀ d ∈ ds, d.moment.timestamp.ticks < c.moment.timestamp.ticks) :
      Continues who cs (ds ++ [c])

variable {who : Account → Prop} {cs ds es : List Comment}

theorem Continues.trans (h : Continues who cs ds) (h' : Continues who ds es) :
    Continues who cs es := by
  induction h' with
  | refl => exact h
  | add _ hwho hnumber htime ih => exact .add ih hwho hnumber htime

theorem Continues.exists_append (h : Continues who cs ds) : ∃ added, ds = cs ++ added ∧
    (∀ c ∈ added, who c.author) ∧
    ∀ a ∈ cs, ∀ b ∈ added, a.moment.timestamp.ticks < b.moment.timestamp.ticks := by
  induction h with
  | refl => exact ⟨[], by simp, by simp, by simp⟩
  | add _ hwho _ htime ih =>
    obtain ⟨added, rfl, hadded, hlater⟩ := ih
    refine ⟨added ++ [_], by rw [List.append_assoc], ?_, fun a ha b hb => ?_⟩
    · simpa [or_imp, forall_and] using ⟨hadded, hwho⟩
    · rcases List.mem_append.mp hb with hb | hb
      · exact hlater a ha b hb
      · exact List.mem_singleton.mp hb ▸ htime a (List.mem_append_left _ ha)

theorem Continues.isPrefix (h : Continues who cs ds) : cs <+: ds := by
  obtain ⟨added, rfl, -⟩ := h.exists_append
  exact List.prefix_append _ _

theorem Continues.subset (h : Continues who cs ds) : cs ⊆ ds := h.isPrefix.subset

theorem sequence_le_lastSequence {c : Comment} (h : c ∈ cs) :
    c.moment.sequence ≤ (lastSequence? cs).getD 0 := by
  have hc : c.moment.sequence ∈ cs.map fun c => c.moment.sequence := List.mem_map_of_mem h
  obtain ⟨n, hn⟩ := Option.isSome_iff_exists.mp (List.isSome_max?_of_mem hc)
  rw [lastSequence?, hn]
  exact (List.max?_eq_some_iff.mp hn).2 _ hc

theorem lastSequence_lt (h : ∀ c ∈ cs, c.moment.sequence < UInt64.size) :
    (lastSequence? cs).getD 0 < UInt64.size := by
  cases hn : lastSequence? cs with
  | none => decide
  | some n =>
    obtain ⟨c, hc, rfl⟩ := List.mem_map.mp (List.max?_eq_some_iff.mp hn).1
    exact h c hc

/-- **If numbers do not start again from zero, new comments have larger ones.** -/
theorem Continues.numbered (h : Continues who cs ds)
    (hfits : ∀ c ∈ cs, c.moment.sequence < UInt64.size)
    (hpos : ∀ c ∈ ds.drop cs.length, c.moment.sequence ≠ 0) :
    (∀ c ∈ ds, c.moment.sequence < UInt64.size) ∧
      ∀ a ∈ cs, ∀ b ∈ ds.drop cs.length, a.moment.sequence < b.moment.sequence := by
  induction h with
  | refl => exact ⟨hfits, by simp⟩
  | @add ds c h hwho hnumber htime ih =>
    obtain ⟨added, rfl, -⟩ := h.exists_append
    rw [List.append_assoc, List.drop_left] at hpos ⊢
    rw [List.drop_left] at ih
    obtain ⟨hlt, hbelow⟩ := ih fun c hc => hpos c (List.mem_append_left _ hc)
    have hlast := lastSequence_lt hlt
    have hc := hpos c (by simp)
    have hnext : c.moment.sequence = (lastSequence? (cs ++ added)).getD 0 + 1 := by
      simp only [UInt64.size] at hlast hnumber
      omega
    constructor
    · intro d hd
      rw [← List.append_assoc] at hd
      rcases List.mem_append.mp hd with hd | hd
      · exact hlt d hd
      · rw [List.mem_singleton.mp hd, hnumber]
        exact Nat.mod_lt _ (by decide)
    · intro a ha b hb
      rcases List.mem_append.mp hb with hb | hb
      · exact hbelow a ha b hb
      · rw [List.mem_singleton.mp hb, hnext]
        exact Nat.lt_succ_of_le (sequence_le_lastSequence (List.mem_append_left _ ha))

end Comment

/-! ### Change requests -/

namespace Snapshot

/-- What stays of a change request, and how its comments go on. -/
structure Grows (who : Account → Prop) (s s' : Snapshot) : Prop where
  author : s'.change.author = s.change.author
  createdAt : s'.change.createdAt = s.change.createdAt
  comments : Comment.Continues who s.comments s'.comments

variable {who : Account → Prop}

theorem Grows.refl (s : Snapshot) : Grows who s s := ⟨rfl, rfl, .refl⟩

theorem Grows.trans {s s' s'' : Snapshot} (h : Grows who s s') (h' : Grows who s' s'') :
    Grows who s s'' :=
  ⟨h'.author.trans h.author, h'.createdAt.trans h.createdAt, h.comments.trans h'.comments⟩

theorem grows_commented (s : Snapshot) {author : Account} (h : who author) (body : String) :
    Grows who s (s.commented author body) :=
  ⟨rfl, rfl, .add .refl h rfl fun _ hd => s.ticks_lt_nextComment _ _ hd⟩

theorem grows_comment (s : Snapshot) {author : Account} (h : who author) (body : String) :
    Grows who s (s.comment author body) := by
  rw [comment_eq]
  split_ifs
  · exact s.grows_commented h body
  · exact .refl s

theorem grows_review (s : Snapshot) (reviewer : Account) (verdict : Verdict) :
    Grows who s (s.review reviewer verdict) := by
  rw [review_eq]
  split_ifs
  · exact ⟨rfl, rfl, .refl⟩
  · exact .refl s

theorem grows_describe (s : Snapshot) (description : String) :
    Grows who s (s.describe description) := ⟨rfl, rfl, .refl⟩

theorem grows_setLabel (s : Snapshot) (label : String) (present : Bool) :
    Grows who s (s.setLabel label present) := ⟨rfl, rfl, .refl⟩

end Snapshot

/-! ### Worlds -/

theorem Forge.snapshot?_put (f : Forge) (id : String) (s : Snapshot) :
    (f.put id s).snapshot? id = some s := by
  simp [put, snapshot?]

theorem Forge.modify_eq {f : Forge} {id : String} {s : Snapshot} (h : f.snapshot? id = some s)
    (g : Snapshot → Snapshot) : f.modify id g = f.put id (g s) := by
  rw [modify, h]

namespace World

/-- The world hosts a change request, its bot is an account of a kind, and nothing is set up to
interrupt a pass. -/
structure Hosts (who : Account → Prop) (id : String) (w : World) (s : Snapshot) : Prop where
  snapshot : w.forge.snapshot? id = some s
  bot : who w.forge.bot
  calm : w.interruptions = {}

/-- A world in which the change request has grown and the rest has stayed. -/
structure Grown (who : Account → Prop) (id : String) (w : World) (s : Snapshot) (w' : World)
    (s' : Snapshot) : Prop where
  hosts : w'.Hosts who id s'
  grows : s.Grows who s'
  bot : w'.forge.bot = w.forge.bot
  memory : w'.memory = w.memory
  census : w'.census = w.census

/-- Whatever change request a world hosts, it has only grown. -/
def Evolves (who : Account → Prop) (id : String) (w w' : World) : Prop :=
  ∀ s, w.Hosts who id s → ∃ s', w.Grown who id s w' s'

variable {who : Account → Prop} {id : String} {w w' w'' : World}

theorem Hosts.grown {s : Snapshot} (h : w.Hosts who id s) : w.Grown who id s w s :=
  ⟨h, .refl s, rfl, rfl, rfl⟩

theorem Grown.trans {s s' s'' : Snapshot} (h : w.Grown who id s w' s')
    (h' : w'.Grown who id s' w'' s'') : w.Grown who id s w'' s'' :=
  ⟨h'.hosts, h.grows.trans h'.grows, h'.bot.trans h.bot, h'.memory.trans h.memory,
    h'.census.trans h.census⟩

theorem Evolves.refl (w : World) : w.Evolves who id w := fun s h => ⟨s, h.grown⟩

theorem Evolves.trans (h : w.Evolves who id w') (h' : w'.Evolves who id w'') :
    w.Evolves who id w'' := fun s hs => by
  obtain ⟨s', h₁⟩ := h s hs
  obtain ⟨s'', h₂⟩ := h' s' h₁.hosts
  exact ⟨s'', h₁.trans h₂⟩

theorem Hosts.grown_put {s s' : Snapshot} (h : w.Hosts who id s) (hs : s.Grows who s') :
    w.Grown who id s { w with forge := w.forge.put id s' } s' :=
  ⟨⟨Forge.snapshot?_put _ _ _, h.bot, h.calm⟩, hs, rfl, rfl, rfl⟩

theorem Hosts.grown_modify {s : Snapshot} {g : Snapshot → Snapshot} (h : w.Hosts who id s)
    (hg : s.Grows who (g s)) :
    w.Grown who id s { w with forge := w.forge.modify id g } (g s) := by
  rw [Forge.modify_eq h.snapshot]
  exact h.grown_put hg

theorem Hosts.grown_faults {s : Snapshot} (h : w.Hosts who id s)
    (faults : List (Operation × Failure)) : w.Grown who id s { w with faults := faults } s :=
  ⟨⟨h.snapshot, h.bot, h.calm⟩, .refl s, rfl, rfl, rfl⟩

/-! ### What users do -/

/-- **What users of a kind do** to a change request, and failures of collaborators. -/
inductive Act (who : Account → Prop) (id : String) (w : World) : World → Prop
  | comment {author : Account} (h : who author) (body : String) :
    Act who id w (w.comment id author body)
  | review {reviewer : Account} (h : who reviewer) (verdict : Verdict) :
    Act who id w { w with forge := w.forge.modify id fun s => s.review reviewer verdict }
  | describe {author : Account} (h : who author) (description : String) :
    Act who id w { w with forge := w.forge.modify id fun s => s.describe description }
  | fail (o : Operation) (times : Nat) (f : Failure) : Act who id w (w.fail o times f)

theorem Act.mono {who' : Account → Prop} (hw : ∀ a, who a → who' a) (h : w.Act who id w') :
    w.Act who' id w' := by
  cases h with
  | comment h body => exact .comment (hw _ h) body
  | review h verdict => exact .review (hw _ h) verdict
  | describe h description => exact .describe (hw _ h) description
  | fail o times f => exact .fail o times f

theorem Act.memory (h : w.Act who id w') : w'.memory = w.memory := by
  cases h <;> rfl

theorem Act.evolves (h : w.Act who id w') : w.Evolves who id w' := fun s hs => by
  cases h with
  | comment h body => exact ⟨_, hs.grown_modify (s.grows_comment h body)⟩
  | review h verdict => exact ⟨_, hs.grown_modify (s.grows_review _ verdict)⟩
  | describe h description => exact ⟨_, hs.grown_modify (s.grows_describe description)⟩
  | fail o times f => exact ⟨s, hs.grown_faults _⟩

theorem evolves_of_acts {users : Account → Prop} (husers : ∀ a, users a → who a)
    (h : Relation.ReflTransGen (Act users id) w w') : w.Evolves who id w' := by
  induction h with
  | refl => exact .refl w
  | tail _ h ih => exact ih.trans (h.mono husers).evolves

/-! ### What passes ask -/

/-- A call fails with a fault that waits, or goes on; a fault is taken at most. -/
theorem attempt_cases {α : Type} (w : World) (o : Operation)
    (go : World → Except Failure α × World) :
    ∃ faults, (∃ f, w.attempt o go = (.error f, { w with faults := faults })) ∨
      w.attempt o go = go { w with faults := faults } := by
  unfold attempt takeFault
  split
  · rename_i h
    split at h <;> cases h
    exact ⟨_, .inl ⟨_, rfl⟩⟩
  · rename_i h
    split at h <;> cases h
    exact ⟨w.faults, .inr rfl⟩

theorem onChange_cases {α : Type} {s : Snapshot} (hs : w.forge.snapshot? id = some s)
    (o : Operation) (go : Snapshot → World → Except Failure α × World) :
    ∃ faults, (∃ f, w.onChange o id go = (.error f, { w with faults := faults })) ∨
      w.onChange o id go = go s { w with faults := faults } := by
  unfold World.onChange
  refine (w.attempt_cases o _).imp fun faults hcases => hcases.imp_right fun hc => hc.trans ?_
  simp only [hs]

theorem Hosts.onChange_cases {α : Type} {s : Snapshot} (h : w.Hosts who id s) (o : Operation)
    (go : Snapshot → World → Except Failure α × World) :
    ∃ faults, (∃ f, w.onChange o id go = (.error f, { w with faults := faults })) ∨
      w.onChange o id go = go s { w with faults := faults } := World.onChange_cases h.snapshot o go

variable {place ticket : Nat} {s : Snapshot}

theorem Hosts.interruptByRival (h : w.Hosts who id s) : w.interruptByRival id = w := by
  rw [World.interruptByRival, h.calm]

theorem Hosts.interruptedPost (h : w.Hosts who id s) (body : String) :
    w.interruptedPost id body = w.post id body := by
  have hc : w.interruptByComment id = w := by rw [interruptByComment, h.calm]
  have hf : w.interruptByFailure = (none, w) := by rw [interruptByFailure, h.calm]
  rw [World.interruptedPost, hc, hf]

/-- **A reply is added** as long as a second is left. -/
theorem addReply_eq (id body : String) (s : Snapshot) (w : World) : addReply id body s w =
    if 0 < s.secondsLeft then
      (.ok (), { w with forge := w.forge.put id (s.commented w.forge.bot body) })
    else (.error .aborted, w) := by
  rw [addReply, Snapshot.nextComment?_eq]
  split_ifs <;> rfl

/-- **An answer only lets the change request grow.** -/
theorem answer_evolves (q : Query) (w : World) :
    w.Evolves who id (answer id place ticket q w).2 := fun s h => by
  cases q with
  | changeRequest =>
    obtain ⟨faults, ⟨f, hc⟩ | hc⟩ := h.onChange_cases .changeRequest fun s w => (.ok s.change, w)
    all_goals
      rw [answer, hc]
      exact ⟨s, h.grown_faults faults⟩
  | comments =>
    obtain ⟨faults, ⟨f, hc⟩ | hc⟩ := h.onChange_cases .comments fun s w => (.ok s.comments, w)
    all_goals
      rw [answer, hc]
      exact ⟨s, h.grown_faults faults⟩
  | reviews =>
    obtain ⟨faults, ⟨f, hc⟩ | hc⟩ := h.onChange_cases .reviews fun s w => (.ok s.reviews, w)
    all_goals
      rw [answer, h.interruptByRival, reviews, hc]
      exact ⟨s, h.grown_faults faults⟩
  | roleOf account =>
    obtain ⟨faults, ⟨f, hc⟩ | hc⟩ := w.attempt_cases .roleOf fun w =>
      (.ok (w.census.roleOf account), w)
    all_goals
      rw [answer, roleOf, hc]
      exact ⟨s, h.grown_faults faults⟩
  | isLatest => exact ⟨s, h.grown⟩
  | postComment body =>
    obtain ⟨faults, ⟨f, hc⟩ | hc⟩ := h.onChange_cases .postComment (addReply id body)
    · rw [answer, h.interruptedPost, post, hc]
      exact ⟨s, h.grown_faults faults⟩
    · rw [answer, h.interruptedPost, post, hc, addReply_eq]
      have hf := h.grown_faults faults
      split_ifs
      · exact ⟨_, hf.trans (hf.hosts.grown_put (s.grows_commented h.bot body))⟩
      · exact ⟨s, hf⟩
  | setLabel label present =>
    obtain ⟨faults, ⟨f, hc⟩ | hc⟩ := h.onChange_cases .setLabel fun s w =>
      (.ok (), { w with forge :=
        { w.forge.put id (s.setLabel label present) with labelWrites := w.forge.labelWrites + 1 } })
    · rw [answer, setLabel, hc]
      exact ⟨s, h.grown_faults faults⟩
    · rw [answer, setLabel, hc]
      have hf := h.grown_faults faults
      have hs := hf.hosts.grown_put (s.grows_setLabel label present)
      exact ⟨_, hf.trans ⟨⟨hs.hosts.snapshot, hs.hosts.bot, hs.hosts.calm⟩, hs.grows, hs.bot,
        hs.memory, hs.census⟩⟩
  | pause ms => exact ⟨s, ⟨h.snapshot, h.bot, h.calm⟩, .refl s, rfl, rfl, rfl⟩

/-! ### What passes learn -/

theorem Hosts.eq_of_changeRequest (h : w.Hosts who id s) {change : ChangeRequest}
    (ha : (answer id place ticket .changeRequest w).1 = .ok change) : change = s.change := by
  obtain ⟨faults, ⟨f, hc⟩ | hc⟩ := h.onChange_cases .changeRequest fun s w => (.ok s.change, w)
  all_goals
    rw [answer, hc] at ha
    cases ha
  rfl

theorem Hosts.eq_of_comments (h : w.Hosts who id s) {comments : List Comment}
    (ha : (answer id place ticket .comments w).1 = .ok comments) : comments = s.comments := by
  obtain ⟨faults, ⟨f, hc⟩ | hc⟩ := h.onChange_cases .comments fun s w => (.ok s.comments, w)
  all_goals
    rw [answer, hc] at ha
    cases ha
  rfl

theorem eq_of_roleOf {account : Account} {role : Option Role}
    (ha : (answer id place ticket (.roleOf account) w).1 = .ok role) :
    role = w.census.roleOf account := by
  obtain ⟨faults, ⟨f, hc⟩ | hc⟩ := w.attempt_cases .roleOf fun w =>
    (.ok (w.census.roleOf account), w)
  all_goals
    rw [answer, roleOf, hc] at ha
    cases ha
  rfl

theorem Hosts.posted (h : w.Hosts who id s) {body : String} {u : Unit}
    (ha : (answer id place ticket (.postComment body) w).1 = .ok u) :
    ∃ s', w.Grown who id s (answer id place ticket (.postComment body) w).2 s' ∧
      ∃ c ∈ s'.comments, c.author = w.forge.bot ∧ c.body = body := by
  obtain ⟨faults, ⟨f, hc⟩ | hc⟩ := h.onChange_cases .postComment (addReply id body)
  · rw [answer, h.interruptedPost, post, hc] at ha
    cases ha
  · rw [answer, h.interruptedPost, post, hc, addReply_eq] at ha ⊢
    have hf := h.grown_faults faults
    split_ifs at ha ⊢
    exact ⟨_, hf.trans (hf.hosts.grown_put (s.grows_commented h.bot body)), _,
      List.mem_append_right _ (List.mem_singleton.mpr rfl), rfl, rfl⟩

end World

end ReviewQuorum
