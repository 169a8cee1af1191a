import ReviewQuorum.Proofs.Milestones
import ReviewQuorum.Proofs.Run

/-! # Passes that nobody interrupts

In a world where nobody else acts, what a pass does to the forge follows from its milestones alone:
a reply adds a comment of the bot, a label is set, and everything else leaves the forge as it is
(`Forge.after`). A reply takes a second of the clock. Every failure takes one of the faults that
wait, but for that of a reply for which no second is left, and every fact that the pass fetches is
the one that stands (`Followed`).

So such a pass makes the plan for the change request as it stands and for the census, and carries it
out. It completes, or it has come as far as some of the plan's milestones and there are fewer faults
left than before, or it has posted as many replies as there were seconds and aborts
(`Reconciler.concludes_runPass`). Where no fault waits, it depends on the seconds alone whether it
completes (`Reconciler.settles_runPass`), and whether the gate has an answer
(`Reconciler.exists_answer_iff`). -/

namespace ReviewQuorum

/-! ### What milestones leave -/

/-- The snapshot after a milestone of a pass of `bot`. -/
def Snapshot.after (bot : Account) (s : Snapshot) : Milestone → Snapshot
  | .posted body => s.commented bot body
  | .labelled label present => s.setLabel label present
  | _ => s

/-- The forge after a milestone of a pass over `id`. -/
def Forge.after (id : String) (f : Forge) : Milestone → Forge
  | .posted body => f.modify id fun s => s.commented f.bot body
  | .labelled label present =>
    { f.modify id (fun s => s.setLabel label present) with labelWrites := f.labelWrites + 1 }
  | _ => f

/-- Whether a fact that was fetched is the one that stands, whether the ticket is the latest, and
whether a second is left for a reply. -/
def Milestone.HoldsOf (s : Snapshot) (latest : Bool) : Milestone → Prop
  | .change c => c = s.change
  | .comments cs => cs = s.comments
  | .reviews rs => rs = s.reviews
  | .ticket l => l = latest
  | .posted _ => 0 < s.secondsLeft
  | .labelled _ _ => True

/-- Milestones hold when they are reached. -/
def Snapshot.Shows (bot : Account) (latest : Bool) : Snapshot → List Milestone → Prop
  | _, [] => True
  | s, m :: ms => m.HoldsOf s latest ∧ (s.after bot m).Shows bot latest ms

/-- The facts of a change request and the roles of a census. -/
def Snapshot.facts (s : Snapshot) (census : RoleTable) : Facts :=
  ⟨s.change, s.comments, s.reviews, census⟩

namespace Snapshot

variable {bot : Account} {s : Snapshot}

/-- **Replies take a second each.** -/
theorem secondsLeft_foldl_after (ms : List Milestone) (s : Snapshot) :
    (ms.foldl (Snapshot.after bot) s).secondsLeft =
      s.secondsLeft - (ms.filterMap Milestone.posted?).length := by
  induction ms generalizing s with
  | nil => rfl
  | cons m ms ih =>
    rw [List.foldl_cons, ih]
    cases m with
    | posted body =>
      have hafter : (s.after bot (.posted body)).secondsLeft = s.secondsLeft - 1 :=
        s.secondsLeft_commented bot body
      have hlength : ((Milestone.posted body :: ms).filterMap Milestone.posted?).length =
          (ms.filterMap Milestone.posted?).length + 1 := rfl
      omega
    | _ => rfl

theorem Shows.length_posted_le {latest : Bool} {ms : List Milestone} (h : s.Shows bot latest ms) :
    (ms.filterMap Milestone.posted?).length ≤ s.secondsLeft := by
  induction ms generalizing s with
  | nil => exact Nat.zero_le _
  | cons m ms ih =>
    have hrest : (ms.filterMap Milestone.posted?).length ≤ (s.after bot m).secondsLeft := ih h.2
    cases m with
    | posted body =>
      have hfirst : 0 < s.secondsLeft := h.1
      have hafter : (s.after bot (.posted body)).secondsLeft = s.secondsLeft - 1 :=
        s.secondsLeft_commented bot body
      have hlength : ((Milestone.posted body :: ms).filterMap Milestone.posted?).length =
          (ms.filterMap Milestone.posted?).length + 1 := rfl
      omega
    | _ => exact hrest

end Snapshot

namespace Forge

variable {f : Forge} {id : String} {s : Snapshot}

theorem bot_modify (f : Forge) (id : String) (g : Snapshot → Snapshot) :
    (f.modify id g).bot = f.bot := by
  unfold modify
  cases f.snapshot? id <;> rfl

theorem snapshot?_modify (h : f.snapshot? id = some s) (g : Snapshot → Snapshot) :
    (f.modify id g).snapshot? id = some (g s) := by
  rw [modify_eq h, snapshot?_put]

theorem bot_after (f : Forge) (id : String) (m : Milestone) : (f.after id m).bot = f.bot := by
  cases m with
  | posted body => exact bot_modify f id _
  | labelled label present => exact bot_modify f id _
  | _ => rfl

theorem snapshot?_after (h : f.snapshot? id = some s) (m : Milestone) :
    (f.after id m).snapshot? id = some (s.after f.bot m) := by
  cases m with
  | posted body => exact snapshot?_modify h _
  | labelled label present => exact snapshot?_modify h _
  | _ => exact h

theorem bot_foldl_after (f : Forge) (id : String) (ms : List Milestone) :
    (ms.foldl (after id) f).bot = f.bot := by
  induction ms generalizing f with
  | nil => rfl
  | cons m ms ih => exact (ih _).trans (bot_after f id m)

theorem snapshot?_foldl_after (h : f.snapshot? id = some s) (ms : List Milestone) :
    (ms.foldl (after id) f).snapshot? id = some (ms.foldl (Snapshot.after f.bot) s) := by
  induction ms generalizing f s with
  | nil => exact h
  | cons m ms ih =>
    rw [List.foldl_cons, List.foldl_cons, ih (snapshot?_after h m), bot_after]

theorem foldl_after_of_read {ms : List Milestone} (h : ∀ m ∈ ms, m.isRead) (f : Forge) :
    ms.foldl (after id) f = f := by
  induction ms with
  | nil => rfl
  | cons m ms ih =>
    have hm : f.after id m = f := by
      have := h m List.mem_cons_self
      cases m with
      | posted body => cases this
      | labelled label present => cases this
      | _ => rfl
    rw [List.foldl_cons, hm, ih fun m' hm' => h m' (List.mem_cons_of_mem _ hm')]

end Forge

/-! ### What answers do -/

namespace World

variable {id : String} {place ticket : Nat} {w w' : World} {s : Snapshot}

/-- A world that hosts a change request and where nobody else acts. -/
abbrev HostsAlone (id : String) (w : World) (s : Snapshot) : Prop := w.Hosts (fun _ => True) id s

theorem attempt_takes {α : Type} (w : World) (o : Operation)
    (go : World → Except Failure α × World) :
    (∃ f faults, faults.length + 1 = w.faults.length ∧
      w.attempt o go = (.error f, { w with faults := faults })) ∨ w.attempt o go = go w := by
  unfold attempt takeFault
  cases h : w.faults.find? fun f => f.1 == o with
  | none => exact .inr rfl
  | some f =>
    refine .inl ⟨f.2, _, ?_, rfl⟩
    have hlength := List.length_eraseP_of_mem (List.mem_of_find?_eq_some h) (List.find?_some h)
    have := List.length_pos_of_mem (List.mem_of_find?_eq_some h)
    omega

theorem Hosts.onChange_takes {α : Type} {who : Account → Prop} (h : w.Hosts who id s)
    (o : Operation) (go : Snapshot → World → Except Failure α × World) :
    (∃ f faults, faults.length + 1 = w.faults.length ∧
      w.onChange o id go = (.error f, { w with faults := faults })) ∨
      w.onChange o id go = go s w := by
  refine (w.attempt_takes o _).imp_right fun hc => ?_
  rw [World.onChange, hc]
  simp only [h.snapshot]

/-- **Why an exchange fails**: it takes a fault, or it is to post a reply and no second is left. -/
def Fails (w : World) (s : Snapshot) (q : Query) (e : Failure) (w' : World) : Prop :=
  w'.faults.length < w.faults.length ∨
    e = .aborted ∧ (∃ body, q = .postComment body) ∧ s.secondsLeft = 0

/-- **What an exchange does**; `latest` says whether the ticket of the pass is the latest one. -/
structure Stepped (id : String) (w : World) (s : Snapshot) (latest : Bool)
    (x : Exchange Query Query.Answer) (w' : World) : Prop where
  forge : w'.forge = x.milestone?.elim w.forge (w.forge.after id)
  memory : w'.memory = w.memory
  census : w'.census = w.census
  calm : w'.interruptions = w.interruptions
  faults : w'.faults.length ≤ w.faults.length
  fails : ∀ e, x.failure? = some e → w.Fails s x.query e w'
  shows : ∀ m, x.milestone? = some m → m.HoldsOf s latest
  truthful : ∀ account role, x = ⟨.roleOf account, .ok role⟩ → role = w.census.roleOf account

theorem Stepped.eq_of_comments {latest : Bool} {x : Exchange Query Query.Answer}
    {comments : List Comment} (hx : Stepped id w s latest x w') (h : x.comments? = some comments) :
    comments = s.comments := by
  rw [x.of_milestone?.2.1] at h
  obtain ⟨m, hm, hcomments⟩ := Option.bind_eq_some_iff.mp h
  cases m with
  | comments cs =>
    cases hcomments
    exact hx.shows _ hm
  | _ => cases hcomments

theorem Stepped.of_fault {latest : Bool} {x : Exchange Query Query.Answer} {f : Failure}
    {faults : List (Operation × Failure)} (hmilestone : x.milestone? = none)
    (hfailure : x.failure? = some f) (hfaults : faults.length + 1 = w.faults.length) :
    Stepped id w s latest x { w with faults := faults } where
  forge := by rw [hmilestone, Option.elim_none]
  memory := rfl
  census := rfl
  calm := rfl
  faults := Nat.le_of_lt (Nat.lt_of_succ_le (Nat.le_of_eq hfaults))
  fails _ _ := .inl (Nat.lt_of_succ_le (Nat.le_of_eq hfaults))
  shows m hm := by rw [hmilestone] at hm; cases hm
  truthful account role hx := by rw [hx] at hfailure; cases hfailure

theorem Stepped.of_fetch {latest : Bool} {x : Exchange Query Query.Answer}
    (hfailure : x.failure? = none) (hforge : x.milestone?.elim w.forge (w.forge.after id) = w.forge)
    (hshows : ∀ m, x.milestone? = some m → m.HoldsOf s latest)
    (hrole : ∀ account role, x = ⟨.roleOf account, .ok role⟩ → role = w.census.roleOf account) :
    Stepped id w s latest x w where
  forge := hforge.symm
  memory := rfl
  census := rfl
  calm := rfl
  faults := Nat.le_refl _
  fails e he := by rw [hfailure] at he; cases he
  shows := hshows
  truthful := hrole

theorem Stepped.of_write {latest : Bool} {x : Exchange Query Query.Answer} {m : Milestone}
    (hmilestone : x.milestone? = some m) (hfailure : x.failure? = none)
    (hholds : m.HoldsOf s latest) :
    Stepped id w s latest x { w with forge := w.forge.after id m } where
  forge := by rw [hmilestone, Option.elim_some]
  memory := rfl
  census := rfl
  calm := rfl
  faults := Nat.le_refl _
  fails e he := by rw [hfailure] at he; cases he
  shows m' hm' := Option.some.inj (hmilestone.symm.trans hm') ▸ hholds
  truthful account role hx := by rw [hx] at hmilestone; cases hmilestone

/-- **An answer does what its exchange says.** -/
theorem Hosts.stepped (h : w.HostsAlone id s) (place ticket : Nat) (q : Query) :
    Stepped id w s ((w.memory.slotAt place).latestTicket == ticket)
      ⟨q, (answer id place ticket q w).1⟩ (answer id place ticket q w).2 := by
  cases q with
  | changeRequest =>
    rcases h.onChange_takes .changeRequest fun s w => (.ok s.change, w) with
      ⟨f, faults, hfaults, hc⟩ | hc
    all_goals rw [answer, hc]
    · exact .of_fault rfl rfl hfaults
    · exact .of_fetch rfl rfl (fun m hm => Option.some.inj hm ▸ rfl) fun _ _ hx => by cases hx
  | comments =>
    rcases h.onChange_takes .comments fun s w => (.ok s.comments, w) with
      ⟨f, faults, hfaults, hc⟩ | hc
    all_goals rw [answer, hc]
    · exact .of_fault rfl rfl hfaults
    · exact .of_fetch rfl rfl (fun m hm => Option.some.inj hm ▸ rfl) fun _ _ hx => by cases hx
  | reviews =>
    rcases h.onChange_takes .reviews fun s w => (.ok s.reviews, w) with
      ⟨f, faults, hfaults, hc⟩ | hc
    all_goals rw [answer, h.interruptByRival, reviews, hc]
    · exact .of_fault rfl rfl hfaults
    · exact .of_fetch rfl rfl (fun m hm => Option.some.inj hm ▸ rfl) fun _ _ hx => by cases hx
  | roleOf account =>
    rcases w.attempt_takes .roleOf fun w => (.ok (w.census.roleOf account), w) with
      ⟨f, faults, hfaults, hc⟩ | hc
    all_goals rw [answer, roleOf, hc]
    · exact .of_fault rfl rfl hfaults
    · refine .of_fetch rfl rfl (fun m hm => by cases hm) fun account' role hx => ?_
      cases hx
      rfl
  | isLatest =>
    exact .of_fetch rfl rfl (fun m hm => Option.some.inj hm ▸ rfl) fun _ _ hx => by cases hx
  | postComment body =>
    rcases h.onChange_takes .postComment (addReply id body) with ⟨f, faults, hfaults, hc⟩ | hc
    all_goals rw [answer, h.interruptedPost, post, hc]
    · exact .of_fault rfl rfl hfaults
    · rw [addReply_eq]
      split_ifs with hleft
      · have hafter : w.forge.after id (.posted body) =
            w.forge.put id (s.commented w.forge.bot body) := Forge.modify_eq h.snapshot _
        rw [← hafter]
        exact .of_write rfl rfl hleft
      · refine ⟨rfl, rfl, rfl, rfl, Nat.le_refl _, fun e he => ?_, fun m hm => ?_,
          fun _ _ hx => ?_⟩
        · exact .inr ⟨(Option.some.inj he).symm, ⟨body, rfl⟩, Nat.eq_zero_of_not_pos hleft⟩
        · cases hm
        · cases hx
  | setLabel label present =>
    rcases h.onChange_takes .setLabel fun s w =>
        (.ok (), { w with forge :=
          { w.forge.put id (s.setLabel label present) with
            labelWrites := w.forge.labelWrites + 1 } }) with
      ⟨f, faults, hfaults, hc⟩ | hc
    all_goals rw [answer, setLabel, hc]
    · exact .of_fault rfl rfl hfaults
    · have hafter : w.forge.after id (.labelled label present) =
          { w.forge.put id (s.setLabel label present) with
            labelWrites := w.forge.labelWrites + 1 } := by
        rw [Forge.after, Forge.modify_eq h.snapshot]
      rw [← hafter]
      exact .of_write rfl rfl trivial
  | pause ms =>
    refine ⟨rfl, rfl, rfl, rfl, Nat.le_refl _, fun _ he => ?_, fun m hm => ?_, fun _ _ hx => ?_⟩
    · cases he
    · cases hm
    · cases hx

theorem Stepped.hosts {latest : Bool} {x : Exchange Query Query.Answer}
    (hx : Stepped id w s latest x w') (h : w.HostsAlone id s) :
    w'.HostsAlone id (x.milestone?.elim s (s.after w.forge.bot)) ∧ w'.forge.bot = w.forge.bot := by
  have hforge := hx.forge
  cases hm : x.milestone? with
  | none =>
    rw [hm, Option.elim_none] at hforge
    exact ⟨⟨by rw [hforge, h.snapshot]; rfl, trivial, hx.calm.trans h.calm⟩, by rw [hforge]⟩
  | some m =>
    rw [hm, Option.elim_some] at hforge
    refine ⟨⟨?_, trivial, hx.calm.trans h.calm⟩, by rw [hforge, Forge.bot_after]⟩
    rw [hforge, Forge.snapshot?_after h.snapshot]
    rfl

theorem Stepped.stands {latest : Bool} {x : Exchange Query Query.Answer} {body : String}
    (hx : Stepped id w s latest x w') (h : w.HostsAlone id s) (hposted : x.posted? = some body) :
    ∃ s', w'.HostsAlone id s' ∧ ∃ c ∈ s'.comments, c.author = w.forge.bot ∧ c.body = body := by
  rw [x.of_milestone?.2.2] at hposted
  obtain ⟨m, hm, hbody⟩ := Option.bind_eq_some_iff.mp hposted
  have hs' := (hx.hosts h).1
  rw [hm, Option.elim_some] at hs'
  cases m with
  | posted body =>
    cases hbody
    exact ⟨_, hs', _, List.mem_append_right _ List.mem_cons_self, rfl, rfl⟩
  | _ => cases hbody

/-- **What the exchanges of a pass do** when nobody else acts. -/
structure Followed (id : String) (w : World) (s : Snapshot) (latest : Bool) (t : Pass.Trace)
    (w' : World) : Prop where
  forge : w'.forge = (Pass.milestonesIn t).foldl (Forge.after id) w.forge
  memory : w'.memory = w.memory
  census : w'.census = w.census
  calm : w'.interruptions = w.interruptions
  faults : w'.faults.length ≤ w.faults.length
  fails : ∀ x e, Pass.FailsAt t x e →
    w.Fails ((Pass.milestonesIn t).foldl (Snapshot.after w.forge.bot) s) x.query e w'
  shows : s.Shows w.forge.bot latest (Pass.milestonesIn t)
  truthful : Pass.Truthful w.census t

theorem Stepped.followed {latest : Bool} {x : Exchange Query Query.Answer} {t : Pass.Trace}
    {w'' : World} (hx : Stepped id w s latest x w') (h : w.HostsAlone id s)
    (ht : Followed id w' (x.milestone?.elim s (s.after w.forge.bot)) latest t w'') :
    Followed id w s latest (x :: t) w'' := by
  have hbot := (hx.hosts h).2
  have hforge := ht.forge
  have hshows := ht.shows
  have hfails := ht.fails
  rw [hx.forge] at hforge
  rw [hbot] at hshows hfails
  have hsnapshot : (Pass.milestonesIn (x :: t)).foldl (Snapshot.after w.forge.bot) s =
      (Pass.milestonesIn t).foldl (Snapshot.after w.forge.bot)
        (x.milestone?.elim s (s.after w.forge.bot)) := by
    rw [Pass.milestonesIn_cons]
    cases x.milestone? <;> rfl
  refine ⟨?_, ht.memory.trans hx.memory, ht.census.trans hx.census, ht.calm.trans hx.calm,
    ht.faults.trans hx.faults, fun y e hy => ?_, ?_, ?_⟩
  · rw [hforge, Pass.milestonesIn_cons]
    cases x.milestone? <;> rfl
  · rw [hsnapshot]
    cases t with
    | nil =>
      obtain rfl : x = y := by simpa using hy.last
      have hnone : x.milestone? = none := Exchange.milestone?_of_failure? hy.failure
      rw [hnone]
      exact (hx.fails e hy.failure).imp_left fun hfewer => Nat.lt_of_le_of_lt ht.faults hfewer
    | cons z t =>
      have hlast : Pass.FailsAt (z :: t) y e := ⟨by simpa using hy.last, hy.failure⟩
      exact (hfails y e hlast).imp_left fun hfewer => Nat.lt_of_lt_of_le hfewer hx.faults
  · rw [Pass.milestonesIn_cons]
    cases hm : x.milestone? with
    | none => rwa [hm] at hshows
    | some m =>
      rw [hm] at hshows
      exact ⟨hx.shows m hm, hshows⟩
  · intro account role hmem
    rcases List.mem_cons.mp hmem with rfl | hmem
    · exact hx.truthful account role rfl
    · rw [ht.truthful account role hmem, hx.census]

/-- **A program of a pass does what its exchanges say.** -/
theorem Hosts.followed {α : Type} (h : w.HostsAlone id s)
    (hticket : (w.memory.slotAt place).latestTicket = ticket) (p : Inquiry α) :
    Followed id w s true (p.exchanges (answer id place ticket) w)
      (p.run (answer id place ticket) w).2 := by
  induction p generalizing w s with
  | done a =>
    exact ⟨rfl, rfl, rfl, rfl, Nat.le_refl _, fun x e hx => absurd hx.last nofun, trivial, nofun⟩
  | ask q next ih =>
    have hx := h.stepped place ticket q
    have hlatest : ((w.memory.slotAt place).latestTicket == ticket) = true := by simp [hticket]
    rw [hlatest] at hx
    exact hx.followed h (ih _ (hx.hosts h).1 (by rw [hx.memory, hticket]))

end World

/-! ### Passes -/

theorem Snapshot.Shows.facts_eq {bot : Account} {s : Snapshot} {facts : Facts} {latest : Bool}
    {ms : List Milestone} (h : s.Shows bot true (facts.milestones ++ .ticket latest :: ms)) :
    latest = true ∧ ∀ census, Facts.mk facts.change facts.comments facts.reviews census =
      s.facts census := by
  obtain ⟨hchange, hcomments, hreviews, hlatest, -⟩ := h
  refine ⟨hlatest, fun census => ?_⟩
  rw [show facts.change = s.change from hchange, show facts.comments = s.comments from hcomments,
    show facts.reviews = s.reviews from hreviews]
  rfl

/-- **Where no second is left for the next reply of a plan**, a reply stands for each second that
there was, and more are owed. -/
theorem Plan.length_eq_of_spent {p : Plan} {settings : Settings} {ms rest : List Milestone}
    {body : String} {bot : Account} {s : Snapshot}
    (h : p.milestones settings = ms ++ .posted body :: rest) (hshows : s.Shows bot true ms)
    (hspent : (ms.foldl (Snapshot.after bot) s).secondsLeft = 0) :
    ms.length = s.secondsLeft ∧ s.secondsLeft < p.replies.length := by
  obtain ⟨sent, unsent, hreplies, rfl, hunsent⟩ := Plan.exists_sent h
  have hposted : ((sent.map fun x => Milestone.posted x.2).filterMap Milestone.posted?).length =
      sent.length := by simp [Milestone.posted?]
  have hsent : sent.length ≤ s.secondsLeft := hposted ▸ hshows.length_posted_le
  have hleft : s.secondsLeft - sent.length = 0 := by
    rw [← hposted, ← Snapshot.secondsLeft_foldl_after, hspent]
  have hmore : 0 < unsent.length := List.length_pos_iff.mpr (hunsent body rfl)
  rw [List.length_map, hreplies, List.length_append]
  omega

namespace Reconciler

variable {r : Reconciler} {id : String} {w w' : World} {s : Snapshot}

/-- The plan for a change request as it stands. -/
def planFor (r : Reconciler) (id : String) (w : World) (s : Snapshot) : Plan :=
  Plan.make r.settings (w.memory.contextOf id) (s.facts w.census)

/-- **Every reply that a pass owes has a second of its own.** -/
def HasTime (r : Reconciler) (id : String) (w : World) (s : Snapshot) : Prop :=
  (r.planFor id w s).replies.length ≤ s.secondsLeft

instance (r : Reconciler) (id : String) (w : World) (s : Snapshot) :
    Decidable (r.HasTime id w s) := inferInstanceAs (Decidable (_ ≤ _))

/-- A second for the description and for every comment is enough. -/
theorem hasTime_of_lt (h : s.comments.length < s.secondsLeft) : r.HasTime id w s := by
  have hfound : (Invocation.extract s.change s.comments r.settings.botAccount).length ≤
      s.comments.length + 1 := by
    have hcomments := (List.length_filterMap_le Invocation.ofComment? (Comment.inOrder
      (s.comments.filter fun c => c.author != r.settings.botAccount))).trans_eq
        (List.length_mergeSort _)
    have hothers := List.length_filter_le (fun c => c.author != r.settings.botAccount) s.comments
    have hdescription : (Invocation.ofDescription? s.change).toList.length ≤ 1 := by
      cases Invocation.ofDescription? s.change <;> simp
    rw [Invocation.extract, List.length_append]
    omega
  calc (r.planFor id w s).replies.length
      ≤ (Invocation.extract s.change s.comments r.settings.botAccount).length := by
        rw [planFor, Plan.make, Reply.renderAll, List.length_map]
        exact List.length_filter_le _ _
    _ ≤ s.secondsLeft := by omega

/-- **How a pass ends that nobody interrupts**: some of the milestones of its plan are left, and
fewer faults; or it has no time and aborts, after a reply for each second; or it completes. -/
inductive Concludes (r : Reconciler) (id : String) (w : World) (s : Snapshot) (w' : World) :
    Except Failure PassResult → Prop
  | failed (e : Failure) {ms rest : List Milestone}
    (hplan : (r.planFor id w s).milestones r.settings = ms ++ rest)
    (hforge : w'.forge = ms.foldl (Forge.after id) w.forge)
    (hcontext : w'.memory.contextOf id = w.memory.contextOf id)
    (hfaults : w'.faults.length < w.faults.length) : Concludes r id w s w' (.error e)
  | aborted (htime : ¬ r.HasTime id w s)
    (hforge : w'.forge = (((r.planFor id w s).milestones r.settings).take s.secondsLeft).foldl
      (Forge.after id) w.forge)
    (hcontext : w'.memory.contextOf id = w.memory.contextOf id)
    (hfaults : w'.faults.length ≤ w.faults.length) : Concludes r id w s w' (.error .aborted)
  | completed (htime : r.HasTime id w s)
    (hforge : w'.forge =
      ((r.planFor id w s).milestones r.settings).foldl (Forge.after id) w.forge)
    (hcontext : w'.memory.contextOf id =
      (r.planFor id w s).nextContext (w.memory.contextOf id))
    (hfaults : w'.faults.length ≤ w.faults.length) :
    Concludes r id w s w' (.ok (.completed ((r.planFor id w s).report id (w.memory.contextOf id))))

/-- What every pass leaves alone, and sound slots. -/
structure Rests (w w' : World) : Prop where
  census : w'.census = w.census
  calm : w'.interruptions = w.interruptions
  placed : w'.memory.WellPlaced

/-- The end of the program of a pass, and the world in which it closes. -/
def ended (r : Reconciler) (id : String) (w : World) : Except Failure PassEnd × World :=
  (r.program ((enter id w).2.2.memory.slotAt (enter id w).1).context).run
    (World.answer id (enter id w).1 (enter id w).2.1) (enter id w).2.2

theorem runPass_eq (r : Reconciler) (id : String) (w : World) : r.runPass id w =
    close id (enter id w).1 (enter id w).2.1 (r.ended id w).1 (r.ended id w).2 := rfl

theorem course_record (r : Reconciler) (id : String) (w : World) :
    Course (World.answer id (enter id w).1 (enter id w).2.1) (fun _ _ => False)
      (r.program ((enter id w).2.2.memory.slotAt (enter id w).1).context) (enter id w).2.2
      (r.record id w).trace (r.ended id w).1 (r.ended id w).2 := .ofRun _ _

theorem reaches_record (r : Reconciler) (id : String) (hm : w.memory.WellPlaced) :
    Pass.Reaches r.settings (w.memory.contextOf id) (r.record id w).trace (r.ended id w).1 :=
  (entered_enter hm).context ▸ Pass.reaches_program (r.course_record id w)

/-- What the exchanges of a pass do that nobody interrupts. -/
theorem followed_record (r : Reconciler) (hs : w.HostsAlone id s) (hm : w.memory.WellPlaced) :
    World.Followed id (enter id w).2.2 s true (r.record id w).trace (r.ended id w).2 := by
  have he : Entered id w _ _ _ := entered_enter hm
  have hs₀ : (enter id w).2.2.HostsAlone id s :=
    ⟨by rw [he.forge, hs.snapshot], trivial, he.calm.trans hs.calm⟩
  exact hs₀.followed he.ticket _

/-- **A pass that nobody interrupts** makes the plan for the change request as it stands and carries
it out, wholly or in part. -/
theorem concludes_runPass (r : Reconciler) (hs : w.HostsAlone id s) (hm : w.memory.WellPlaced) :
    Concludes r id w s (r.runPass id w).2 (r.runPass id w).1 ∧ Rests w (r.runPass id w).2 := by
  have he : Entered id w _ _ _ := entered_enter hm
  have hfollowed := r.followed_record hs hm
  have hreaches := r.reaches_record id hm
  rw [runPass_eq]
  generalize (r.record id w).trace = t at hfollowed hreaches
  generalize r.ended id w = ended at hfollowed hreaches ⊢
  obtain ⟨result, w₁⟩ := ended
  have htruth : Pass.Truthful w.census t := he.census ▸ hfollowed.truthful
  have hfaults : w₁.faults.length ≤ w.faults.length := hfollowed.faults
  have htracks : w₁.memory.Tracks id (enter id w).1 := hfollowed.memory ▸ he.tracks
  have hcontext : (w₁.memory.slotAt (enter id w).1).context = w.memory.contextOf id := by
    rw [hfollowed.memory, he.context]
  have hkept : w₁.memory.contextOf id = w.memory.contextOf id := by
    rw [htracks.contextOf, hcontext]
  have hrests : Rests w w₁ :=
    ⟨hfollowed.census.trans he.census, hfollowed.calm.trans he.calm, htracks.placed⟩
  have hplan {facts : Facts} {latest : Bool} {ms : List Milestone}
      (hlearnt : Pass.Learnt r.settings t facts)
      (h : Pass.milestonesIn t = facts.milestones ++ .ticket latest :: ms) :
      Plan.make r.settings (w.memory.contextOf id) facts = r.planFor id w s ∧ latest = true ∧
        w₁.forge = ms.foldl (Forge.after id) w.forge ∧ s.Shows w.forge.bot true ms := by
    have hshows := he.forge ▸ h ▸ hfollowed.shows
    obtain ⟨hlatest, hfacts⟩ := hshows.facts_eq
    refine ⟨by rw [Plan.make_of_learnt hlearnt htruth, hfacts]; rfl, hlatest, ?_,
      hshows.2.2.2.2⟩
    rw [hfollowed.forge, h, List.foldl_append, he.forge]
    rfl
  cases hreaches with
  | fruitless hfails hreads =>
    have hforge : w₁.forge = w.forge := by
      rw [hfollowed.forge, Forge.foldl_after_of_read (Pass.isRead_of_mem_milestonesIn hreads),
        he.forge]
    have hnothing : (r.planFor id w s).milestones r.settings =
      [] ++ (r.planFor id w s).milestones r.settings := rfl
    rcases hfollowed.fails _ _ hfails with hfewer | ⟨-, ⟨body, hbody⟩, -⟩
    · exact ⟨.failed _ hnothing hforge hkept hfewer, hrests⟩
    · have hread := hreads _ (List.mem_of_getLast? hfails.last)
      rw [hbody] at hread
      cases hread
  | superseded hreads hlearnt h => cases (hplan hlearnt h).2.1
  | @broken e x facts ms m rest hfails hquery hlearnt h hsplit =>
    obtain ⟨heq, -, hforge, hshows⟩ := hplan hlearnt h
    rw [heq] at hsplit
    rcases hfollowed.fails _ _ hfails with hfewer | ⟨rfl, ⟨body, hbody⟩, hnone⟩
    · exact ⟨.failed e hsplit hforge hkept hfewer, hrests⟩
    · have hm : m = .posted body := by
        rw [hquery] at hbody
        cases m <;> cases hbody
        rfl
      subst hm
      have hspent : (ms.foldl (Snapshot.after w.forge.bot) s).secondsLeft = 0 := by
        rw [← hnone, h, List.foldl_append, he.forge]
        rfl
      obtain ⟨hlength, hmore⟩ := Plan.length_eq_of_spent hsplit hshows hspent
      refine ⟨.aborted (Nat.not_le_of_lt hmore) ?_ hkept hfaults, hrests⟩
      change w₁.forge = _
      rw [hforge, hsplit, ← hlength, List.take_left]
  | completed hlearnt h =>
    obtain ⟨heq, -, hforge, hshows⟩ := hplan hlearnt h
    rw [heq] at hforge hshows ⊢
    have htime : r.HasTime id w s := by
      rw [HasTime, ← (r.planFor id w s).length_posted r.settings]
      exact hshows.length_posted_le
    refine ⟨?_, hrests.census, hrests.calm, (htracks.setSlot _ _).placed⟩
    simp only [close, hcontext]
    refine .completed htime hforge ?_ hfaults
    rw [Memory.remember, (htracks.setSlot _ _).contextOf, htracks.slotAt_setSlot]

theorem hostsAlone_of_forge (hs : w.HostsAlone id s) (hr : Rests w w') {ms : List Milestone}
    (hforge : w'.forge = ms.foldl (Forge.after id) w.forge) :
    w'.HostsAlone id (ms.foldl (Snapshot.after w.forge.bot) s) ∧ w'.forge.bot = w.forge.bot :=
  ⟨⟨by rw [hforge, Forge.snapshot?_foldl_after hs.snapshot], trivial, hr.calm.trans hs.calm⟩,
    by rw [hforge, Forge.bot_foldl_after]⟩

theorem report_of_completed (hs : w.HostsAlone id s) (hm : w.memory.WellPlaced) {report : Report}
    (h : (r.runPass id w).1 = .ok (.completed report)) :
    report = (r.planFor id w s).report id (w.memory.contextOf id) := by
  obtain ⟨hends, -⟩ := r.concludes_runPass hs hm
  rw [h] at hends
  cases hends
  rfl

/-- **What a pass does where no fault waits.** If it has time, it completes with the report on its
plan, and carries the plan out. Otherwise it posts a reply for each second and aborts. -/
structure Settles (r : Reconciler) (id : String) (w : World) (s : Snapshot) : Prop where
  result : (r.runPass id w).1 =
    if r.HasTime id w s then
      .ok (.completed ((r.planFor id w s).report id (w.memory.contextOf id)))
    else .error .aborted
  forge : (r.runPass id w).2.forge =
    (if r.HasTime id w s then (r.planFor id w s).milestones r.settings
      else ((r.planFor id w s).milestones r.settings).take s.secondsLeft).foldl
        (Forge.after id) w.forge
  context : (r.runPass id w).2.memory.contextOf id =
    if r.HasTime id w s then (r.planFor id w s).nextContext (w.memory.contextOf id)
    else w.memory.contextOf id
  faults : (r.runPass id w).2.faults = []
  rests : Rests w (r.runPass id w).2

/-- **Where no fault waits, a pass that nobody interrupts does so.** -/
theorem settles_runPass (r : Reconciler) (hs : w.HostsAlone id s) (hm : w.memory.WellPlaced)
    (hfaults : w.faults = []) : r.Settles id w s := by
  obtain ⟨hends, hrests⟩ := r.concludes_runPass hs hm
  generalize hout : r.runPass id w = out at hends hrests
  obtain ⟨result, w'⟩ := out
  cases hends with
  | failed e hplan hforge hcontext hfewer => simp [hfaults] at hfewer
  | aborted htime hforge hcontext hfewer =>
    have hnone : w'.faults = [] := by simpa [hfaults] using hfewer
    constructor <;> simp only [hout, if_neg htime] <;> assumption
  | completed htime hforge hcontext hfewer =>
    have hnone : w'.faults = [] := by simpa [hfaults] using hfewer
    constructor <;> simp only [hout, if_pos htime] <;> assumption

theorem Settles.of_completed {report : Report} (h : r.Settles id w s)
    (hrun : r.runPass id w = (.ok (.completed report), w')) : r.HasTime id w s ∧
      report = (r.planFor id w s).report id (w.memory.contextOf id) ∧
      w'.forge = ((r.planFor id w s).milestones r.settings).foldl (Forge.after id) w.forge ∧
      w'.faults = [] ∧ Rests w w' := by
  obtain ⟨hresult, hforge, -, hfaults, hrests⟩ := h
  rw [hrun] at hresult hforge hfaults hrests
  by_cases htime : r.HasTime id w s
  · rw [if_pos htime] at hresult hforge
    cases hresult
    exact ⟨htime, rfl, hforge, hfaults, hrests⟩
  · rw [if_neg htime] at hresult
    cases hresult

/-- Where no fault waits, a pass that has time completes and leaves a world in which none waits
either. -/
theorem runPass_of_faultless (r : Reconciler) (hs : w.HostsAlone id s) (hm : w.memory.WellPlaced)
    (hfaults : w.faults = []) (htime : r.HasTime id w s) : ∃ w', r.runPass id w =
        (.ok (.completed ((r.planFor id w s).report id (w.memory.contextOf id))), w') ∧
      w'.forge = ((r.planFor id w s).milestones r.settings).foldl (Forge.after id) w.forge ∧
      w'.faults = [] ∧ Rests w w' := by
  have h := r.settles_runPass hs hm hfaults
  refine ⟨_, Prod.ext (h.result.trans (if_pos htime)) rfl, ?_, h.faults, h.rests⟩
  rw [h.forge, if_pos htime]

/-! ### The gate -/

/-- If nobody interrupts its pass, a gate that answers does so by the readiness of the plan. -/
theorem answer_of_checkGate (hs : w.HostsAlone id s) (hm : w.memory.WellPlaced)
    {action : GateAction} {answer : GateAnswer} (h : (r.checkGate id action w).1 = .ok answer) :
    answer = .ofDecision action (.ofReadiness? (some (r.planFor id w s).readiness)) := by
  obtain ⟨hends, -⟩ := r.concludes_runPass hs hm
  rw [checkGate, maxGateAttempts, checkGateWithin] at h
  generalize r.runPass id w = out at hends h
  obtain ⟨result, w'⟩ := out
  cases hends with
  | failed => cases h
  | aborted => cases h
  | completed => exact (Except.ok.inj h).symm

/-- **Where no fault waits the gate answers**, if its pass has time. -/
theorem checkGate_of_faultless (r : Reconciler) (hs : w.HostsAlone id s) (hm : w.memory.WellPlaced)
    (hfaults : w.faults = []) (action : GateAction) : (r.checkGate id action w).1 =
      if r.HasTime id w s then
        .ok (.ofDecision action (.ofReadiness? (some (r.planFor id w s).readiness)))
      else .error (.call .aborted) := by
  have hresult := (r.settles_runPass hs hm hfaults).result
  rw [checkGate, maxGateAttempts, checkGateWithin]
  generalize r.runPass id w = out at hresult
  obtain ⟨result, w'⟩ := out
  split_ifs with htime
  · rw [if_pos htime] at hresult
    cases hresult
    rfl
  · rw [if_neg htime] at hresult
    cases hresult
    rfl

/-- Where no fault waits, the gate answers exactly if its pass has time. -/
theorem exists_answer_iff (r : Reconciler) (hs : w.HostsAlone id s) (hm : w.memory.WellPlaced)
    (hfaults : w.faults = []) (action : GateAction) :
    (∃ answer, (r.checkGate id action w).1 = .ok answer) ↔ r.HasTime id w s := by
  rw [r.checkGate_of_faultless hs hm hfaults action]
  split_ifs with htime
  · exact iff_of_true ⟨_, rfl⟩ htime
  · exact iff_of_false (fun ⟨_, h⟩ => by cases h) htime

end Reconciler

/-! ### The last second -/

/-- A world with one change request, where nothing is known of any account. -/
def worldOf (s : Snapshot) : World where
  forge := (Forge.empty "revgate-bot").insert s
  census := .empty

theorem hostsAlone_worldOf (s : Snapshot) : (worldOf s).HostsAlone s.change.id s :=
  ⟨Forge.snapshot?_put _ _ s, trivial, rfl⟩

/-- Alice asks for two reviewers in the last second of the clock. -/
def lateSnapshot : Snapshot where
  change := ⟨"1", "alice", "/reviewers 2", .ofParts Timestamp.lastSecond 0, Dict.empty⟩
  comments := []
  reviews := []

end ReviewQuorum
