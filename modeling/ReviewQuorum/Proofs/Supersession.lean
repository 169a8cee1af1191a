import ReviewQuorum.Proofs.Answering
import ReviewQuorum.Proofs.Interleaving

/-! # Superseded calls

When several calls run over one change request, the one with the latest ticket does the work for
all of them. A call that is superseded has only asked and leaves the context as it found it; a later
ticket had been taken before it asked for the latest one; and once all calls have left, the one with
the latest ticket has completed, with a ledger for comments among which are all that stood when it
was requested. No source gets two replies from a batch (`Replied`): the lock lets one call in after
the other, so what the earlier ones have posted stands among the comments that the next one fetches.
-/

namespace ReviewQuorum

open Marker

/-! ### What plans come to -/

theorem Facts.isRead_milestones (f : Facts) (latest : Bool) :
    ∀ m ∈ f.milestones ++ [.ticket latest], m.isRead := by
  simp [milestones, Milestone.isRead]

namespace Plan

variable (p : Plan) (settings : Settings)

theorem quiet_milestones :
    ∀ m ∈ p.milestones settings, m.change? = none ∧ m.comments? = none := by
  simp only [milestones, List.mem_append, List.mem_map, Option.mem_toList, Option.map_eq_some_iff]
  rintro m (⟨x, -, rfl⟩ | ⟨present, -, rfl⟩) <;> exact ⟨rfl, rfl⟩

end Plan

/-! ### What passes have asked -/

namespace Pass

variable {settings : Settings} {context : Context} {t t' : Trace}
  {result : Except Failure PassEnd}

theorem mem_of_ticket {latest : Bool} (h : .ticket latest ∈ milestonesIn t) :
    ⟨.isLatest, latest⟩ ∈ t := by
  obtain ⟨⟨q, a⟩, hx, hm⟩ := List.mem_filterMap.mp h
  cases q with
  | isLatest =>
    cases hm
    exact hx
  | pause ms => cases hm
  | _ => cases a <;> cases hm

/-- **Where no collaborator fails**, a pass that does not abort is superseded after it has only
asked, or it completes. -/
theorem Reaches.of_faultless (h : Reaches settings context t result)
    (hfaultless : ∀ x ∈ t, ∀ e, x.failure? = some e → e = .aborted)
    (hends : result ≠ .error .aborted) :
    (result = .ok .superseded ∧ (∀ x ∈ t, x.query.isRead) ∧ ⟨.isLatest, false⟩ ∈ t) ∨
    ∃ facts, result = .ok (.completed (Plan.make settings context facts)) ∧
      Learnt settings t facts ∧ changesIn t = [facts.change] ∧ commentsIn t = [facts.comments] := by
  have hnever {e : Failure} {x : Exchange Query Query.Answer} (hfails : FailsAt t x e) :
      e = .aborted := hfaultless x (List.mem_of_getLast? hfails.last) e hfails.failure
  cases h with
  | fruitless hfails hreads => exact absurd (congrArg Except.error (hnever hfails)) hends
  | broken hfails hquery hlearnt h hplan =>
    exact absurd (congrArg Except.error (hnever hfails)) hends
  | superseded hreads hlearnt h =>
    exact .inl ⟨rfl, hreads, mem_of_ticket (by rw [h]; simp)⟩
  | @completed facts hlearnt h =>
    have hquiet := (Plan.make settings context facts).quiet_milestones settings
    refine .inr ⟨facts, rfl, hlearnt, ?_, ?_⟩
    · rw [changesIn_eq, h, List.filterMap_append, List.filterMap_cons,
        List.filterMap_eq_nil_iff.mpr fun m hm => (hquiet m hm).1]
      rfl
    · rw [commentsIn_eq, h, List.filterMap_append, List.filterMap_cons,
        List.filterMap_eq_nil_iff.mpr fun m hm => (hquiet m hm).2]
      rfl

theorem postedIn_eq_nil (h : ∀ m ∈ milestonesIn t, m.isRead) : postedIn t = [] := by
  rw [postedIn_eq, List.filterMap_eq_nil_iff]
  intro m hm
  have := h m hm
  cases m with
  | posted body => cases this
  | _ => rfl

theorem posted_of_milestones {facts : Facts} {ms : List Milestone}
    (h : milestonesIn (t ++ t') = facts.milestones ++ .ticket true :: ms)
    (hplan : ms <+: (Plan.make settings context facts).milestones settings) : postedIn t = [] ∨
      commentsIn t = [facts.comments] ∧
        postedIn t <+: (Plan.make settings context facts).replies.map (·.2) := by
  rw [milestonesIn_append, List.append_cons, List.append_eq_append_iff] at h
  rcases h with ⟨rest, h, -⟩ | ⟨carried, h, rfl⟩
  · -- it has not come beyond its ticket
    exact .inl (postedIn_eq_nil fun m hm =>
      facts.isRead_milestones true m (h ▸ List.mem_append_left _ hm))
  · have hfirst : carried <+: (Plan.make settings context facts).milestones settings :=
      (List.prefix_append carried _).trans hplan
    have hquiet := (Plan.make settings context facts).quiet_milestones settings
    refine .inr ⟨?_, ?_⟩
    · rw [commentsIn_eq, h, List.filterMap_append,
        List.filterMap_eq_nil_iff.mpr fun m hm => (hquiet m (hfirst.subset hm)).2]
      rfl
    · rw [postedIn_eq, h, List.filterMap_append, ← Plan.posted_milestones _ settings]
      exact hfirst.filterMap _

/-- **What a pass on its way has posted** are the first replies of a plan for the comments that it
has fetched. -/
theorem Reaches.posted (h : Reaches settings context (t ++ t') result) : postedIn t = [] ∨
    ∃ facts, commentsIn t = [facts.comments] ∧
      postedIn t <+: (Plan.make settings context facts).replies.map (·.2) := by
  have hreads (h : ∀ m ∈ milestonesIn (t ++ t'), m.isRead) : postedIn t = [] :=
    postedIn_eq_nil fun m hm => h m (milestonesIn_append t t' ▸ List.mem_append_left _ hm)
  cases h with
  | fruitless hfails hread => exact .inl (hreads (isRead_of_mem_milestonesIn hread))
  | superseded hread hlearnt h => exact .inl (hreads (isRead_of_mem_milestonesIn hread))
  | broken hfails hquery hlearnt h hplan =>
    exact (posted_of_milestones h (hplan ▸ List.prefix_append _ _)).imp_right fun h => ⟨_, h⟩
  | completed hlearnt h => exact (posted_of_milestones h List.prefix_rfl).imp_right fun h => ⟨_, h⟩

end Pass

/-! ### Replies of a batch -/

/-- The replies that calls have posted. -/
def repliesOf (h : List Event) : List String :=
  h.filterMap fun e => e.move.exchange?.bind Exchange.posted?

theorem repliesOf_concat (h : List Event) (e : Event) : repliesOf (h ++ [e]) =
    repliesOf h ++ (e.move.exchange?.bind Exchange.posted?).toList := by
  rw [repliesOf, List.filterMap_append, List.filterMap_cons, List.filterMap_nil]
  cases e.move.exchange?.bind Exchange.posted? <;> rfl

theorem repliesOf_concat_of_quiet (h : List Event) {e : Event} (he : e.move.exchange? = none) :
    repliesOf (h ++ [e]) = repliesOf h := by
  rw [repliesOf_concat, he]
  exact List.append_nil _

theorem exchangesOf_concat (i : Nat) (h : List Event) (e : Event) : exchangesOf i (h ++ [e]) =
    exchangesOf i h ++ if e.call = i then e.move.exchange?.toList else [] := by
  rw [exchangesOf, movesOf_concat, List.filterMap_append]
  congr 1
  split
  · rw [List.filterMap_cons, List.filterMap_nil]
    cases e.move.exchange? <;> rfl
  · rfl

theorem exchangesOf_concat_of_quiet (i : Nat) (h : List Event) {e : Event}
    (he : e.move.exchange? = none) : exchangesOf i (h ++ [e]) = exchangesOf i h := by
  rw [exchangesOf_concat, he]
  split <;> exact List.append_nil _

theorem exchangesOf_eq {i place ticket : Nat} {comments : List Comment} {context : Context}
    {h : List Event} {t : Pass.Trace} {ms : List Move} (hms : movesOf i h =
      .requested place ticket comments :: .entered context :: (t.map .asked ++ ms))
    (hquiet : ∀ m ∈ ms, m.exchange? = none) : exchangesOf i h = t := by
  have ht : (t.map Move.asked).filterMap Move.exchange? = t := by
    rw [List.filterMap_map]
    exact List.filterMap_some
  rw [exchangesOf, hms, List.filterMap_cons_none rfl, List.filterMap_cons_none rfl,
    List.filterMap_append, ht, List.filterMap_eq_nil_iff.mpr hquiet, List.append_nil]

namespace Batch

variable {r : Reconciler} {id : String} {w₀ : World} {b b' : Batch}

/-- What the call that holds the lock has asked. -/
def inside (b : Batch) : Pass.Trace := b.holder?.elim [] fun k => exchangesOf k.call b.history

/-- **What holds of the replies of a batch.** They stand; those of the calls that have left answer
no source twice; and the call that holds the lock has fetched comments among which these stand. -/
structure Replied (bot : Account) (id : String) (w₀ : World) (b : Batch) : Prop where
  stand : ∀ body ∈ repliesOf b.history, ∃ c ∈ b.world.commentsOn id, c.author = bot ∧ c.body = body
  once : ∃ earlier, repliesOf b.history = earlier ++ Pass.postedIn b.inside ∧
    (∀ source : Source, IsKey source.key.toList → earlier.countP (Reply.answers source) ≤
      if source.key ∈ answeredKeys (w₀.commentsOn id) bot then 0 else 1) ∧
    ∀ fetched ∈ Pass.commentsIn b.inside, w₀.commentsOn id ⊆ fetched ∧
      fetched <+: b.world.commentsOn id ∧
      ∀ body ∈ earlier, ∃ c ∈ fetched, c.author = bot ∧ c.body = body

/-- **No source is answered twice by a batch.** -/
theorem Replied.countP_le {bot : Account} (hr : Replied bot id w₀ b) (hb : Sound r id w₀ b)
    (hbot : r.settings.botAccount = bot)
    (hnamed : Comment.Named (Comment.ofOthers bot (b.world.commentsOn id))) {source : Source}
    (hsource : IsKey source.key.toList) :
    (repliesOf b.history).countP (Reply.answers source) ≤
      if source.key ∈ answeredKeys (w₀.commentsOn id) bot then 0 else 1 := by
  subst hbot
  obtain ⟨earlier, hsplit, hearlier, hfetched⟩ := hr.once
  obtain ⟨w, l, h⟩ := b
  cases l with
  | none =>
    rw [hsplit, show Pass.postedIn (inside ⟨w, none, h⟩) = [] from rfl, List.append_nil]
    exact hearlier source hsource
  | some k =>
    obtain ⟨comments, t, hms, -, hpass, -⟩ := hb.inside
    rw [← List.append_nil (t.map Move.asked)] at hms
    have ht : exchangesOf k.call h = t := exchangesOf_eq hms fun m hm => absurd hm List.not_mem_nil
    rw [show inside ⟨w, some k, h⟩ = t from ht] at hsplit hfetched
    obtain ⟨t', result, hreaches⟩ := hpass.exists_reaches w
    rcases hreaches.posted with hnone | ⟨facts, hcomments, hfirst⟩
    · rw [hsplit, hnone, List.append_nil]
      exact hearlier source hsource
    · obtain ⟨hsub, hseen, hstand⟩ := hfetched facts.comments (by rw [hcomments]; simp)
      have hnamed' := hnamed.sublist (hseen.sublist.filter _)
      rw [hsplit]
      exact Reply.countP_append_le hsource hsub hstand (hearlier source hsource)
        (hfirst.sublist.countP_le.trans (Plan.countP_replies_le hnamed' hsource _))

theorem replied_start (bot : Account) (id : String) (w : World) :
    Replied bot id w (Batch.start w) :=
  ⟨nofun, [], rfl, fun _ _ => Nat.zero_le _, nofun⟩

theorem Replied.carry {bot : Account} (hr : Replied bot id w₀ b) (hs : Shares id b.world b'.world)
    (hreplies : repliesOf b'.history = repliesOf b.history) (hinside : b'.inside = b.inside) :
    Replied bot id w₀ b' := by
  obtain ⟨earlier, hsplit, hearlier, hfetched⟩ := hr.once
  refine ⟨fun body hb => ?_, earlier, by rw [hreplies, hinside, hsplit], hearlier, ?_⟩
  · obtain ⟨c, hc, hcb⟩ := hr.stand body (hreplies ▸ hb)
    exact ⟨c, hs.comments.subset hc, hcb⟩
  · rw [hinside]
    intro fetched hmem
    obtain ⟨hsub, hseen, hstand⟩ := hfetched fetched hmem
    exact ⟨hsub, hseen.trans hs.comments.isPrefix, hstand⟩

theorem Replied.ask {w : World} {h : List Event} {i place ticket : Nat} {q : Query}
    {next : q.Answer → Inquiry (Except Failure PassEnd)}
    (hr : Replied w₀.forge.bot id w₀ ⟨w, some ⟨i, place, ticket, .ask q next⟩, h⟩)
    (hb : Sound r id w₀ ⟨w, some ⟨i, place, ticket, .ask q next⟩, h⟩) :
    Replied w₀.forge.bot id w₀ ⟨(World.answer id place ticket q w).2,
      some ⟨i, place, ticket, next (World.answer id place ticket q w).1⟩,
      h ++ [⟨i, .asked ⟨q, (World.answer id place ticket q w).1⟩⟩]⟩ := by
  have hs := hb.shares.step (r := r) .ask
  obtain ⟨s, hs₀⟩ := hb.shares.hosted
  have hx := hs₀.stepped place ticket q
  obtain ⟨earlier, hsplit, hearlier, hfetched⟩ := hr.once
  generalize next (World.answer id place ticket q w).1 = rest
  generalize (⟨q, (World.answer id place ticket q w).1⟩ : Exchange Query Query.Answer) = x at hx ⊢
  have hinside : inside ⟨(World.answer id place ticket q w).2, some ⟨i, place, ticket, rest⟩,
      h ++ [⟨i, .asked x⟩]⟩ = inside ⟨w, some ⟨i, place, ticket, .ask q next⟩, h⟩ ++ [x] := by
    change exchangesOf i (h ++ [⟨i, .asked x⟩]) = exchangesOf i h ++ [x]
    rw [exchangesOf_concat, if_pos rfl]
    rfl
  have hreplies : repliesOf (h ++ [⟨i, .asked x⟩]) = repliesOf h ++ Pass.postedIn [x] := by
    rw [repliesOf_concat, Pass.postedIn, List.filterMap_cons, List.filterMap_nil]
    change _ ++ x.posted?.toList = _
    cases x.posted? <;> rfl
  refine ⟨fun body hbody => ?_, earlier, ?_, hearlier, ?_⟩
  · rw [hreplies] at hbody
    rcases List.mem_append.mp hbody with hbody | hbody
    · obtain ⟨c, hc, hcb⟩ := hr.stand body hbody
      exact ⟨c, hs.comments.subset hc, hcb⟩
    · obtain ⟨y, hy, hposted⟩ := List.mem_filterMap.mp hbody
      obtain rfl := List.mem_singleton.mp hy
      obtain ⟨s', hs', c, hc, hauthor, hcb⟩ := hx.stands hs₀ hposted
      exact ⟨c, hs'.commentsOn ▸ hc, hauthor.trans hb.shares.bot, hcb⟩
  · rw [hreplies, hinside, Pass.postedIn_append, ← List.append_assoc, ← hsplit]
  · rw [hinside]
    intro fetched hmem
    rcases Pass.mem_commentsIn_concat.mp hmem with hmem | hcomments
    · obtain ⟨hsub, hseen, hstand⟩ := hfetched fetched hmem
      exact ⟨hsub, hseen.trans hs.comments.isPrefix, hstand⟩
    · -- the earlier replies stand when comments are fetched
      obtain rfl : fetched = w.commentsOn id := by
        rw [hs₀.commentsOn]
        exact hx.eq_of_comments hcomments
      refine ⟨hb.shares.comments.subset, hs.comments.isPrefix, fun body hbody => ?_⟩
      refine hr.stand body ?_
      rw [hsplit]
      exact List.mem_append_left _ hbody

/-- The call that holds the lock leaves it: its replies are among the earlier ones from now on. -/
theorem Replied.release {bot : Account} {w' : World} {e : Event} (hr : Replied bot id w₀ b)
    (hb : Sound r id w₀ b) (hs : Shares id b.world w') (hbot : r.settings.botAccount = bot)
    (hnamed : Comment.Named (Comment.ofOthers bot (b.world.commentsOn id)))
    (he : e.move.exchange? = none) : Replied bot id w₀ ⟨w', none, b.history ++ [e]⟩ := by
  have hreplies : repliesOf (b.history ++ [e]) = repliesOf b.history :=
    repliesOf_concat_of_quiet _ he
  refine ⟨fun body hbody => ?_, repliesOf b.history, ?_, ?_, nofun⟩
  · rw [hreplies] at hbody
    obtain ⟨c, hc, hcb⟩ := hr.stand body hbody
    exact ⟨c, hs.comments.subset hc, hcb⟩
  · rw [hreplies]
    exact (List.append_nil _).symm
  · exact fun source hsource => hr.countP_le hb hbot hnamed hsource

/-- **Every step keeps what holds of the replies.** -/
theorem Replied.step (hr : Replied w₀.forge.bot id w₀ b) (hb : Sound r id w₀ b)
    (hbot : r.settings.botAccount = w₀.forge.bot)
    (hnamed : Comment.Named (Comment.ofOthers w₀.forge.bot (b.world.commentsOn id)))
    (hstep : Step r id b b') : Replied w₀.forge.bot id w₀ b' := by
  have hs := hb.shares.step hstep
  cases hstep with
  | act ha hfaults => exact hr.carry hs rfl rfl
  | @request w l h i hnew =>
    refine hr.carry hs (repliesOf_concat_of_quiet h rfl) ?_
    cases l with
    | none => rfl
    | some k => exact exchangesOf_concat_of_quiet k.call h rfl
  | @enter w h i place ticket comments hrequested hwaits =>
    -- the call has not asked anything yet
    have hms : movesOf i h = [.requested place ticket comments] :=
      (hb.progress i).eq_of_waiting (mem_movesOf.mpr hrequested) fun context hc =>
        hwaits context (mem_movesOf.mp hc)
    have hnothing : exchangesOf i h = [] := by rw [exchangesOf, hms]; rfl
    exact hr.carry hs (repliesOf_concat_of_quiet h rfl)
      ((exchangesOf_concat_of_quiet i h rfl).trans hnothing)
  | ask => exact hr.ask hb
  | leave hends => exact hr.release hb hs hbot hnamed rfl
  | abort => exact hr.release hb hs hbot hnamed rfl

/-- **It holds of every batch that has come about**, if the comments of others have names. -/
theorem replied_run {w : World} {s : Snapshot} (hs : w.HostsAlone id s)
    (hm : w.memory.WellPlaced) (hf : w.faults = []) (hbot : r.settings.botAccount = w.forge.bot)
    (hrun : Run r id w b)
    (hnamed : Comment.Named (Comment.ofOthers w.forge.bot (b.world.commentsOn id))) :
    Replied w.forge.bot id w b := by
  induction hrun with
  | refl => exact replied_start _ _ _
  | tail hrun hstep ih =>
    have hb := sound_run hs hm hf hrun
    have hnamed' := hnamed.sublist ((hb.shares.step hstep).comments.isPrefix.sublist.filter _)
    exact (ih hnamed').step hb hbot hnamed' hstep

/-! ### Calls that have left -/

/-- Every call that was requested has left. -/
def AllLeft (b : Batch) : Prop :=
  ∀ i place ticket comments, ⟨i, .requested place ticket comments⟩ ∈ b.history →
    ∃ result context, ⟨i, .left result context⟩ ∈ b.history

/-- **What a call that has left has done**: it was requested once, found a context, and what it has
asked came to an end of a pass, with which it was closed. -/
theorem Sound.of_left {i : Nat} {result : Except Failure PassResult} {context : Context}
    (hb : Sound r id w₀ b) (hleft : ⟨i, .left result context⟩ ∈ b.history) :
    ∃ place ticket comments last w,
      (∀ p t cs, ⟨i, .requested p t cs⟩ ∈ b.history → t = ticket ∧ cs = comments) ∧
      ⟨i, .entered (w.memory.slotAt place).context⟩ ∈ b.history ∧
      Asked w₀.census b.history i ticket comments (exchangesOf i b.history) ∧
      Pass.Reaches r.settings (w.memory.slotAt place).context (exchangesOf i b.history) last ∧
      result = (Reconciler.close id place ticket last w).1 ∧
      context = ((Reconciler.close id place ticket last w).2.memory.slotAt place).context ∧
      last ≠ .error .aborted := by
  have hp := hb.progress i
  have hmem := mem_movesOf.mpr hleft
  generalize hms : movesOf i b.history = ms at hp hmem
  generalize b.heldBy i = held at hp
  cases hp with
  | absent => cases hmem
  | waiting place ticket comments => simp at hmem
  | inside hcontext hasked hpass => simp at hmem
  | aborted => simp at hmem
  | @left place ticket comments _ t last w hcontext hasked hpass hends =>
    subst hcontext
    have ht : exchangesOf i b.history = t :=
      exchangesOf_eq hms fun m hm => List.mem_singleton.mp hm ▸ rfl
    obtain ⟨hresult, hcontext⟩ : result = (Reconciler.close id place ticket last w).1 ∧
        context = ((Reconciler.close id place ticket last w).2.memory.slotAt place).context := by
      simpa using hmem
    refine ⟨place, ticket, comments, last, w, fun p t cs hr => ?_, ?_, ht ▸ hasked, ht ▸ hpass,
      hresult, hcontext, hends⟩
    · have hr' := mem_movesOf.mpr hr
      have heq : p = place ∧ t = ticket ∧ cs = comments := by simpa [hms] using hr'
      exact heq.2
    · refine mem_movesOf.mp ?_
      rw [hms]
      exact List.mem_cons_of_mem _ List.mem_cons_self

end Batch

/-- **Supersession loses nothing.** However calls over a change request interleave while no
collaborator fails, a call that is superseded has only asked, leaves the context that it found, and
had found its ticket outdated when a later one had been taken. Once all calls have left, the one
with the latest ticket has completed, and its ledger replays the commands in comments among which
are all that stood when it was requested. And no source gets two replies. -/
theorem superseded_loses_nothing {r : Reconciler} {id : String} {w : World} {s : Snapshot}
    {b : Batch} (hs : w.forge.snapshot? id = some s) (halone : w.interruptions = {})
    (hfaults : w.faults = []) (hplaced : w.memory.WellPlaced) (hrun : Batch.Run r id w b) :
    (∀ i ticket context, ⟨i, .left (.ok (.superseded ticket)) context⟩ ∈ b.history →
      (∀ x ∈ exchangesOf i b.history, x.query.isRead) ∧ ⟨i, .entered context⟩ ∈ b.history ∧
      ∃ h₁ h₂ j place later comments, b.history = h₁ ++ ⟨i, .asked ⟨.isLatest, false⟩⟩ :: h₂ ∧
        ⟨j, .requested place later comments⟩ ∈ h₁ ∧ ticket < later) ∧
    (b.AllLeft → ∀ i place ticket comments,
      ⟨i, .requested place ticket comments⟩ ∈ b.history →
      (∀ j place' ticket' comments', ⟨j, .requested place' ticket' comments'⟩ ∈ b.history →
        ticket' ≤ ticket) →
      ∃ report context change fetched,
        ⟨i, .left (.ok (.completed report)) context⟩ ∈ b.history ∧
        Pass.changesIn (exchangesOf i b.history) = [change] ∧
        Pass.commentsIn (exchangesOf i b.history) = [fetched] ∧ comments ⊆ fetched ∧
        let ledger := Ledger.replay .default
          (Invocation.commands (Invocation.extract change fetched r.settings.botAccount))
          change.author w.census.roleOf
        report.policy = ledger.policy ∧ report.rulings = ledger.rulings) ∧
    (w.forge.bot = r.settings.botAccount →
      Comment.Named (Comment.ofOthers w.forge.bot (b.world.commentsOn id)) →
      ∀ source : Source, IsKey source.key.toList →
        (repliesOf b.history).countP (Reply.answers source) ≤
          if source.key ∈ answeredKeys s.comments w.forge.bot then 0 else 1) := by
  have hhosts : w.HostsAlone id s := ⟨hs, trivial, halone⟩
  have hb := Batch.sound_run hhosts hplaced hfaults hrun
  refine ⟨fun i ticket context hleft => ?_, fun hall i place ticket comments hr hlatest => ?_,
    fun hbot hnamed source hsource => ?_⟩
  · obtain ⟨place, ticket', comments, last, w₁, -, hentered, hasked, hreaches, hresult, rfl,
      hends⟩ := hb.of_left hleft
    rcases hreaches.of_faultless hasked.faultless hends with ⟨rfl, hread, hcheck⟩ | ⟨facts, rfl, -⟩
    · cases hresult
      exact ⟨hread, hentered, hasked.overtaken hcheck⟩
    · cases hresult
  · obtain ⟨result, context, hleft⟩ := hall i place ticket comments hr
    obtain ⟨place', ticket', comments', last, w₁, honce, -, hasked, hreaches, rfl, -, hends⟩ :=
      hb.of_left hleft
    obtain ⟨rfl, rfl⟩ := honce _ _ _ hr
    rcases hreaches.of_faultless hasked.faultless hends with
      ⟨-, -, hcheck⟩ | ⟨facts, rfl, hlearnt, hchange, hcomments⟩
    · -- a later ticket was taken, against the choice of the call
      obtain ⟨h₁, h₂, j, place₂, later, comments₂, hsplit, hj, hlt⟩ := hasked.overtaken hcheck
      have := hlatest j place₂ later comments₂ (by rw [hsplit]; exact List.mem_append_left _ hj)
      omega
    · have hplan := Plan.make_of_learnt hlearnt hasked.truthful (w₁.memory.slotAt place').context
      refine ⟨_, context, facts.change, facts.comments, hleft, hchange, hcomments,
        hasked.covers _ (by rw [hcomments]; exact List.mem_cons_self), ?_⟩
      rw [hplan]
      exact ⟨rfl, rfl⟩
  · have hreplied := Batch.replied_run hhosts hplaced hfaults hbot.symm hrun hnamed
    rw [← hhosts.commentsOn]
    exact hreplied.countP_le hb hbot.symm hnamed hsource

/-! ### A call that is overtaken -/

/-- Bob has written a command on a change request that nobody has looked at. -/
def commandedWorld : World := (World.start quietForge .empty).comment "1" "bob" "/reviewers 2"

/-- Two calls are requested before the first one gets hold of the lock. -/
def requestedBatch : Batch := ((Batch.start commandedWorld).request "1" 0).request "1" 1

/-- Then they run one after the other. -/
def rivalBatch : Batch :=
  (requestedBatch.serve plainReconciler "1" 0 0 1).serve plainReconciler "1" 1 0 2

/-- The calls share the slot and take its tickets in order. -/
theorem history_requestedBatch : requestedBatch.history =
    [⟨0, .requested 0 1 (commandedWorld.commentsOn "1")⟩,
      ⟨1, .requested 0 2 (commandedWorld.commentsOn "1")⟩] := by
  have hfirst : (Reconciler.enter "1" commandedWorld).1 = 0 ∧
    (Reconciler.enter "1" commandedWorld).2.1 = 1 := by decide +kernel
  have hsecond : (Reconciler.enter "1" (Reconciler.enter "1" commandedWorld).2.2).1 = 0 ∧
    (Reconciler.enter "1" (Reconciler.enter "1" commandedWorld).2.2).2.1 = 2 := by decide +kernel
  simp only [requestedBatch, Batch.request, Batch.start, hfirst, hsecond]
  rfl

/-- The first call finds its ticket outdated. -/
theorem superseded_requestedBatch :
    (requestedBatch.passOf plainReconciler "1" 0 1).1 = .ok .superseded := by decide +kernel

theorem run_rivalBatch : Batch.Run plainReconciler "1" commandedWorld rivalBatch := by
  have hstart : Batch.Run plainReconciler "1" commandedWorld (Batch.start commandedWorld) := .refl
  have hrequested : Batch.Run plainReconciler "1" commandedWorld requestedBatch :=
    (hstart.request fun e he => absurd he List.not_mem_nil).request
      (by simp [Batch.request, Batch.start])
  have hfirst : ⟨0, .requested 0 1 (commandedWorld.commentsOn "1")⟩ ∈ requestedBatch.history := by
    simp [history_requestedBatch]
  have hsecond : ⟨1, .requested 0 2 (commandedWorld.commentsOn "1")⟩ ∈ requestedBatch.history := by
    simp [history_requestedBatch]
  have hserved := hrequested.serve rfl hfirst (by simp [history_requestedBatch])
    (by rw [superseded_requestedBatch]; exact fun h => by cases h)
  exact hserved.serve rfl (Batch.subset_serve _ _ _ _ _ _ hsecond)
    (by simp [Batch.serve, history_requestedBatch]) (by decide +kernel)

theorem mem_rivalBatch {i place ticket : Nat} {comments : List Comment}
    (h : ⟨i, .requested place ticket comments⟩ ∈ rivalBatch.history) :
    i = 0 ∧ ticket = 1 ∨ i = 1 ∧ ticket = 2 := by
  have hmem : (i = 0 ∧ place = 0 ∧ ticket = 1 ∧ comments = commandedWorld.commentsOn "1") ∨
      (i = 1 ∧ place = 0 ∧ ticket = 2 ∧ comments = commandedWorld.commentsOn "1") := by
    simpa [rivalBatch, Batch.serve, history_requestedBatch] using h
  omega

theorem allLeft_rivalBatch : rivalBatch.AllLeft := fun i place ticket comments h => by
  rcases mem_rivalBatch h with ⟨rfl, -⟩ | ⟨rfl, -⟩
  · obtain ⟨context, hleft⟩ := Batch.left_mem_serve plainReconciler "1" 0 0 1 requestedBatch
    exact ⟨_, context, Batch.subset_serve _ _ _ _ _ _ hleft⟩
  · obtain ⟨context, hleft⟩ := Batch.left_mem_serve plainReconciler "1" 1 0 2 _
    exact ⟨_, context, hleft⟩

/-- The first of two calls is superseded, and the second one completes and answers bob, whose reply
stands. -/
theorem superseded_loses_nothing_rivalBatch :
    (commandedWorld.interruptions = {} ∧ commandedWorld.faults = [] ∧
      commandedWorld.memory.WellPlaced ∧
      Batch.Run plainReconciler "1" commandedWorld rivalBatch ∧ rivalBatch.AllLeft) ∧
    (∃ context, ⟨0, .left (.ok (.superseded 1)) context⟩ ∈ rivalBatch.history ∧
      (∀ x ∈ exchangesOf 0 rivalBatch.history, x.query.isRead) ∧
      ⟨0, .entered context⟩ ∈ rivalBatch.history) ∧
    (∃ report context fetched, ⟨1, .left (.ok (.completed report)) context⟩ ∈ rivalBatch.history ∧
      commandedWorld.commentsOn "1" ⊆ fetched ∧
      Pass.commentsIn (exchangesOf 1 rivalBatch.history) = [fetched]) ∧
    (repliesOf rivalBatch.history).countP (Reply.answers (.comment "c1")) = 1 ∧
    ∃ c ∈ rivalBatch.world.forge.botComments "1",
      Reply.answers (.comment "c1") c.body = true := by
  obtain ⟨s, hs⟩ : ∃ s, commandedWorld.forge.snapshot? "1" = some s := ⟨_, rfl⟩
  have hplaced : commandedWorld.memory.WellPlaced := Memory.wellPlaced_empty
  obtain ⟨context, hleft⟩ := Batch.left_mem_serve plainReconciler "1" 0 0 1 requestedBatch
  rw [superseded_requestedBatch] at hleft
  replace hleft : ⟨0, .left (.ok (.superseded 1)) context⟩ ∈ rivalBatch.history :=
    Batch.subset_serve _ _ _ _ _ _ hleft
  have hrequested : ⟨1, .requested 0 2 (commandedWorld.commentsOn "1")⟩ ∈ rivalBatch.history := by
    simp [rivalBatch, Batch.serve, history_requestedBatch]
  have hnamed : Comment.Named (Comment.ofOthers commandedWorld.forge.bot
    (rivalBatch.world.commentsOn "1")) := by decide +kernel
  obtain ⟨hsuperseded, hcompleted, honce⟩ :=
    superseded_loses_nothing hs rfl rfl hplaced run_rivalBatch
  obtain ⟨hread, hentered, -⟩ := hsuperseded 0 1 context hleft
  obtain ⟨report, context', change, fetched, hleft', -, hcomments, hsub, -⟩ :=
    hcompleted allLeft_rivalBatch 1 0 2 _ hrequested fun j place ticket comments h => by
      have := mem_rivalBatch h
      omega
  have hcount := honce rfl hnamed (.comment "c1") (Invocation.isKey_comment (by decide))
  have hatMost : (repliesOf rivalBatch.history).countP (Reply.answers (.comment "c1")) ≤ 1 :=
    hcount.trans (by split <;> decide)
  have hatLeast : 1 ≤ (repliesOf rivalBatch.history).countP (Reply.answers (.comment "c1")) := by
    decide +kernel
  exact ⟨⟨rfl, rfl, hplaced, run_rivalBatch, allLeft_rivalBatch⟩, ⟨context, hleft, hread, hentered⟩,
    ⟨report, context', fetched, hleft', hsub, hcomments⟩, Nat.le_antisymm hatMost hatLeast,
    by decide +kernel⟩

end ReviewQuorum
