import ReviewQuorum.Proofs.Answering
import ReviewQuorum.Proofs.SolePass
import ReviewQuorum.Proofs.Unmarked

/-! # Passes that go on where others have stopped

What a pass writes, its own replies and the label, later passes do not read as commands or reviews:
they find the same policy, rulings, tally and readiness (`Snapshot.Agrees`). What is left to do is
read off the replies that stand and the label.

A pass that completes therefore leaves nothing to do, for itself and for a fresh reconciler
(`runPass_idempotent`). A pass that fails has carried out some of the milestones of its plan, and
the plan of the next pass has exactly the others (`Snapshot.Answerable.milestones_eq`). As long as
there is time, every failure takes one of the faults that wait. So passes that are run again and
again complete, and then the forge is as one pass without faults would have left it
(`runPass_resumes`). -/

namespace ReviewQuorum

open Marker
open Text (Unbroken)

/-! ### What passes read again -/

/-- Snapshots from which a pass reads the same commands and reviews. -/
structure Snapshot.Agrees (bot : Account) (s s' : Snapshot) : Prop where
  author : s'.change.author = s.change.author
  invocations : Invocation.extract s'.change s'.comments bot =
    Invocation.extract s.change s.comments bot
  reviews : s'.reviews = s.reviews

/-- Plans that find the same of a change request. -/
structure Plan.Agrees (p q : Plan) : Prop where
  ledger : q.ledger = p.ledger
  tally : q.tally = p.tally
  readiness : q.readiness = p.readiness

/-- Reports that find the same of a change request. -/
structure Report.Agrees (a b : Report) : Prop where
  policy : b.policy = a.policy
  rulings : b.rulings = a.rulings
  tally : b.tally = a.tally
  readiness : b.readiness = a.readiness

theorem Report.Agrees.trans {a b c : Report} (h : a.Agrees b) (h' : b.Agrees c) : a.Agrees c :=
  ⟨h'.policy.trans h.policy, h'.rulings.trans h.rulings, h'.tally.trans h.tally,
    h'.readiness.trans h.readiness⟩

theorem Plan.Agrees.report {p q : Plan} (h : p.Agrees q) (id : String) (c c' : Context) :
    (p.report id c).Agrees (q.report id c') :=
  ⟨congrArg Ledger.policy h.ledger, congrArg Ledger.rulings h.ledger, h.tally, h.readiness⟩

namespace Snapshot

variable {bot : Account} {s s' s'' : Snapshot}

theorem Agrees.trans (h : s.Agrees bot s') (h' : s'.Agrees bot s'') : s.Agrees bot s'' :=
  ⟨h'.author.trans h.author, h'.invocations.trans h.invocations, h'.reviews.trans h.reviews⟩

/-- What a pass writes leaves the commands and the reviews. -/
theorem agrees_after (bot : Account) (s : Snapshot) (m : Milestone) :
    s.Agrees bot (s.after bot m) := by
  cases m with
  | posted body =>
    refine ⟨rfl, ?_, rfl⟩
    simp [Invocation.extract, after, List.filter_append]
  | labelled label present => exact ⟨rfl, rfl, rfl⟩
  | _ => exact ⟨rfl, rfl, rfl⟩

theorem agrees_foldl_after (bot : Account) (s : Snapshot) (ms : List Milestone) :
    s.Agrees bot (ms.foldl (Snapshot.after bot) s) := by
  induction ms generalizing s with
  | nil => exact ⟨rfl, rfl, rfl⟩
  | cons m ms ih => exact (agrees_after bot s m).trans (ih _)

theorem Agrees.plan {settings : Settings} (h : s.Agrees settings.botAccount s') (c c' : Context)
    (census : RoleTable) :
    (Plan.make settings c (s.facts census)).Agrees (Plan.make settings c' (s'.facts census)) := by
  constructor <;> simp only [Plan.make, facts, h.invocations, h.author, h.reviews]

/-! ### What is left to do -/

/-- The invocations that are owed a reply. -/
def owed (bot : Account) (watermark : Option Nat) (s : Snapshot) : List Invocation :=
  (Invocation.extract s.change s.comments bot).filter
    (Plan.isOwed watermark (answeredKeys s.comments bot))

theorem replies_make (settings : Settings) (c : Context) (s : Snapshot) (census : RoleTable) :
    (Plan.make settings c (s.facts census)).replies =
      Reply.renderAll (s.owed settings.botAccount c.watermark)
        (Plan.make settings c (s.facts census)).ledger := rfl

theorem labelChange_make (settings : Settings) (c : Context) (s : Snapshot) (census : RoleTable) :
    (Plan.make settings c (s.facts census)).labelChange =
      if s.change.hasLabel settings.readyLabel =
        (Plan.make settings c (s.facts census)).readiness.ready then none
      else some (Plan.make settings c (s.facts census)).readiness.ready := by
  rw [← ite_not]
  simp only [Plan.make, facts, bne_iff_ne, ne_eq]

theorem mem_answeredKeys_foldl_after {ms : List Milestone} {k : String} :
    k ∈ answeredKeys (ms.foldl (Snapshot.after bot) s).comments bot ↔
      k ∈ answeredKeys s.comments bot ∨
        ∃ body, .posted body ∈ ms ∧ k ∈ keysIn body.toList := by
  induction ms generalizing s with
  | nil => simp
  | cons m ms ih =>
    rw [List.foldl_cons, ih]
    cases m with
    | posted body =>
      have hcomments : k ∈ answeredKeys (s.after bot (.posted body)).comments bot ↔
          k ∈ answeredKeys s.comments bot ∨ k ∈ keysIn body.toList := by
        simp [mem_answeredKeys, after, or_and_right, exists_or]
      simp [hcomments, or_and_right, exists_or, or_assoc]
    | _ => simp [after, setLabel]

theorem change_foldl_posted {α : Type} (f : α → String) (xs : List α) (s : Snapshot) :
    ((xs.map fun x => Milestone.posted (f x)).foldl (Snapshot.after bot) s).change = s.change := by
  induction xs generalizing s with
  | nil => rfl
  | cons x xs ih => exact ih _

theorem hasLabel_setLabel (s : Snapshot) (label : String) (present : Bool) :
    (s.setLabel label present).change.hasLabel label = present := by
  have hcontains (d : NameSet) : Dict.contains d label = (Dict.get? d label).isSome := by
    rw [Dict.contains, Dict.get?, Option.isSome_map, List.isSome_find?]
  cases present <;>
    simp [ChangeRequest.hasLabel, setLabel, hcontains, NameSet.add, Dict.get?_erase]

end Snapshot

theorem Plan.isOwed_iff {watermark : Option Nat} (answered : List String) {i : Invocation} :
    isOwed watermark answered i = true ↔
      i.source.key ∉ answered ∧ isOwed watermark [] i = true := by
  simp [isOwed]

theorem Plan.isOwed_none (i : Invocation) : isOwed none [] i = true := by
  unfold isOwed
  cases i.source <;> rfl

/-! ### A plan that has been carried out -/

namespace Snapshot

variable {settings : Settings} {s : Snapshot} {census : RoleTable} {c c' : Context}

/-- **Nothing is owed any more** once all that was owed without a watermark has been posted. -/
theorem owed_eq_nil (hids : ∀ k ∈ s.comments, Unbroken k.id.toList) (hfresh : c.watermark = none)
    (watermark : Option Nat) :
    (((Plan.make settings c (s.facts census)).milestones settings).foldl
      (Snapshot.after settings.botAccount) s).owed settings.botAccount watermark = [] := by
  rw [owed, (agrees_foldl_after _ s _).invocations, List.filter_eq_nil_iff]
  intro i hi howed
  refine ((Plan.isOwed_iff _).mp howed).1 (mem_answeredKeys_foldl_after.mpr ?_)
  by_cases h : i.source.key ∈ answeredKeys s.comments settings.botAccount
  · exact .inl h
  · have hmem : i ∈ s.owed settings.botAccount c.watermark :=
      List.mem_filter.mpr ⟨hi, hfresh ▸ (Plan.isOwed_iff _).mpr ⟨h, Plan.isOwed_none i⟩⟩
    obtain ⟨ruling, hreply⟩ : ∃ ruling, (i.source.key, Reply.render i ruling) ∈
        (Plan.make settings c (s.facts census)).replies :=
      ⟨_, List.mem_map.mpr ⟨i, hmem, rfl⟩⟩
    refine .inr ⟨Reply.render i ruling, List.mem_append_left _ (List.mem_map_of_mem hreply), ?_⟩
    exact mem_keysIn_of_suffix (Invocation.isKey_of_mem_extract hids hi)
      (Reply.holding_suffix_render i ruling)

/-- **The label is shown** once a plan has been carried out. -/
theorem labelChange_eq_none : (Plan.make settings c' ((((Plan.make settings c
      (s.facts census)).milestones settings).foldl (Snapshot.after settings.botAccount) s).facts
        census)).labelChange = none := by
  rw [labelChange_make]
  refine if_pos ?_
  rw [((agrees_foldl_after settings.botAccount s _).plan c c' census).readiness,
    Plan.milestones, List.foldl_append, labelChange_make]
  split_ifs with h
  · rw [Option.map_none, Option.toList_none, List.foldl_nil, change_foldl_posted]
    exact h
  · exact hasLabel_setLabel _ _ _

end Snapshot

/-- **A pass that completes leaves nothing to do.** The pass of a fresh reconciler completes if it
has time. After it another one, of the same or of a fresh reconciler, completes with no reply and no
label change, finds the same, and leaves the forge as it is. -/
theorem runPass_idempotent (r : Reconciler) {id : String} {w : World} {s : Snapshot}
    (hs : w.forge.snapshot? id = some s) (hbot : w.forge.bot = r.settings.botAccount)
    (hids : ∀ c ∈ s.comments, Unbroken c.id.toList) (hfresh : w.memory = .empty)
    (hfaults : w.faults = []) (halone : w.interruptions = {}) :
    (r.HasTime id w s → ∃ report w₁, r.runPass id w = (.ok (.completed report), w₁)) ∧
    ∀ report w₁, r.runPass id w = (.ok (.completed report), w₁) →
      ∀ w₂, w₂ = w₁ ∨ w₂ = w₁.restart →
        ∃ report' w₃, r.runPass id w₂ = (.ok (.completed report'), w₃) ∧
          report'.replies = [] ∧ report'.labelChange = none ∧ report.Agrees report' ∧
          w₃.forge = w₁.forge := by
  have hhosts : w.HostsAlone id s := ⟨hs, trivial, halone⟩
  have hplaced : w.memory.WellPlaced := hfresh ▸ Memory.wellPlaced_empty
  have hsettles := r.settles_runPass hhosts hplaced hfaults
  refine ⟨fun htime => ⟨_, _, Prod.ext (hsettles.result.trans (if_pos htime)) rfl⟩,
    fun report w₁ hrun w₂ hw₂ => ?_⟩
  obtain ⟨-, rfl, hforge, hfaults₁, hrests⟩ := hsettles.of_completed hrun
  obtain ⟨hhosts₁, -⟩ := Reconciler.hostsAlone_of_forge hhosts hrests hforge
  rw [hbot] at hhosts₁
  generalize hs₁ : ((r.planFor id w s).milestones r.settings).foldl
    (Snapshot.after r.settings.botAccount) s = s₁ at hhosts₁
  -- a fresh reconciler differs in its memory alone
  have hsecond : w₂.forge = w₁.forge ∧ w₂.census = w.census ∧ w₂.faults = [] ∧
      w₂.interruptions = {} ∧ w₂.memory.WellPlaced := by
    rcases hw₂ with rfl | rfl
    · exact ⟨rfl, hrests.census, hfaults₁, hhosts₁.calm, hrests.placed⟩
    · exact ⟨rfl, hrests.census, hfaults₁, hhosts₁.calm, Memory.wellPlaced_empty⟩
  obtain ⟨hforge₂, hcensus₂, hfaults₂, hcalm₂, hplaced₂⟩ := hsecond
  have hhosts₂ : w₂.HostsAlone id s₁ := ⟨hforge₂ ▸ hhosts₁.snapshot, trivial, hcalm₂⟩
  have hwatermark : (w.memory.contextOf id).watermark = none := by rw [hfresh]; rfl
  have hreplies : (r.planFor id w₂ s₁).replies = [] := by
    rw [Reconciler.planFor, hcensus₂, ← hs₁, Snapshot.replies_make, Reconciler.planFor,
      Snapshot.owed_eq_nil hids hwatermark]
    rfl
  have hlabel : (r.planFor id w₂ s₁).labelChange = none := by
    rw [Reconciler.planFor, hcensus₂, ← hs₁]
    exact Snapshot.labelChange_eq_none
  have hagrees : (r.planFor id w s).Agrees (r.planFor id w₂ s₁) := by
    rw [Reconciler.planFor, Reconciler.planFor, hcensus₂, ← hs₁]
    exact (Snapshot.agrees_foldl_after _ s _).plan _ _ _
  have htime₂ : r.HasTime id w₂ s₁ := by
    rw [Reconciler.HasTime, hreplies]
    exact Nat.zero_le _
  obtain ⟨w₃, hrun₂, hforge₃, -⟩ := r.runPass_of_faultless hhosts₂ hplaced₂ hfaults₂ htime₂
  refine ⟨_, w₃, hrun₂, ?_, hlabel, hagrees.report id _ _, ?_⟩
  · rw [Plan.report, hreplies]
    rfl
  · rw [hforge₃, Plan.milestones, hreplies, hlabel]
    exact hforge₂

/-- Alice asks for two reviewers, and bob's command cannot be read. -/
def askedSnapshot : Snapshot where
  change := ⟨"1", "alice", "/reviewers 2", ⟨0⟩, Dict.empty⟩
  comments := [⟨"c1", "bob", "/reviewers many", ⟨⟨1⟩, 1⟩⟩]
  reviews := []

/-- A world with the change request, in which some calls are going to fail. -/
def askedWorld (faults : List (Operation × Failure)) : World where
  forge := (Forge.empty "revgate-bot").insert askedSnapshot
  census := .empty
  faults := faults

theorem snapshot?_askedWorld (faults : List (Operation × Failure)) :
    (askedWorld faults).forge.snapshot? "1" = some askedSnapshot :=
  Forge.snapshot?_put _ _ _

/-- A fresh reconciler finds nothing to do after the first pass. -/
theorem runPass_idempotent_askedWorld :
    ((askedWorld []).forge.bot = plainReconciler.settings.botAccount ∧
      (∀ c ∈ askedSnapshot.comments, Unbroken c.id.toList) ∧ (askedWorld []).memory = .empty) ∧
    ∃ report w₁, plainReconciler.runPass "1" (askedWorld []) = (.ok (.completed report), w₁) ∧
      ∃ report' w₃, plainReconciler.runPass "1" w₁.restart = (.ok (.completed report'), w₃) ∧
        report'.replies = [] ∧ w₃.forge = w₁.forge := by
  have hids : ∀ c ∈ askedSnapshot.comments, Unbroken c.id.toList := by decide
  obtain ⟨hcompletes, hagain⟩ := runPass_idempotent plainReconciler (snapshot?_askedWorld [])
    rfl hids rfl rfl rfl
  obtain ⟨report, w₁, hrun⟩ := hcompletes (Reconciler.hasTime_of_lt (by decide))
  obtain ⟨report', w₃, hrun', hreplies, -, -, hforge⟩ :=
    hagain report w₁ hrun w₁.restart (.inr rfl)
  exact ⟨⟨rfl, hids, rfl⟩, report, w₁, hrun, report', w₃, hrun', hreplies, hforge⟩

/-! ### A plan that has been carried out in part -/

/-- The replies to some invocations, as milestones. -/
def Ledger.posts (l : Ledger) (is : List Invocation) : List Milestone :=
  is.map fun i => .posted (Reply.render i (l.rulingFor? i.source))

/-- The label that a plan sets, as a milestone. -/
def Plan.labelling (p : Plan) (settings : Settings) : List Milestone :=
  (p.labelChange.map (Milestone.labelled settings.readyLabel)).toList

theorem Plan.length_labelling (p : Plan) (settings : Settings) :
    (p.labelling settings).length ≤ 1 := by
  cases h : p.labelChange <;> simp [labelling, h]

/-- A change request whose commands can be told from one another by the replies: they have distinct
sources, and every reply marks one. -/
structure Snapshot.Answerable (bot : Account) (s : Snapshot) : Prop where
  nodup : ((Invocation.extract s.change s.comments bot).map (·.source)).Nodup
  marks : ∀ i ∈ Invocation.extract s.change s.comments bot, ∀ ruling k,
    k ∈ keysIn (Reply.render i ruling).toList ↔ k = i.source.key

namespace Snapshot

variable {bot : Account} {s s' : Snapshot}

theorem Answerable.of_agrees (h : s.Answerable bot) (hs : s.Agrees bot s') : s'.Answerable bot :=
  ⟨hs.invocations ▸ h.nodup, hs.invocations ▸ h.marks⟩

/-- A change request on which no marker begins, and whose comments are named by distinct words. -/
theorem Unmarked.answerable (h : s.Unmarked bot) (hids : (s.comments.map (·.id)).Nodup)
    (hwords : ∀ c ∈ s.comments, Unbroken c.id.toList) : s.Answerable bot :=
  ⟨Invocation.nodup_sources hids, fun _ hi ruling _ => h.mem_keysIn_render hwords hi ruling⟩

/-- **What is owed after some replies** are the others. -/
theorem Answerable.owed_eq (h : s.Answerable bot) (ledger : Ledger) {watermark : Option Nat}
    {sent unsent : List Invocation} (hsplit : s.owed bot watermark = sent ++ unsent)
    {ms : List Milestone} (hms : ∀ body, .posted body ∈ ms ↔
      ∃ i ∈ sent, Reply.render i (ledger.rulingFor? i.source) = body) :
    (ms.foldl (Snapshot.after bot) s).owed bot watermark = unsent := by
  have hs := agrees_foldl_after bot s ms
  generalize hs' : ms.foldl (Snapshot.after bot) s = s' at hs
  have hsub : (sent ++ unsent).Sublist (Invocation.extract s.change s.comments bot) :=
    hsplit ▸ List.filter_sublist
  have hkeys (k : String) : k ∈ answeredKeys s'.comments bot ↔
      k ∈ answeredKeys s.comments bot ∨ ∃ i ∈ sent, k = i.source.key := by
    simp only [← hs', mem_answeredKeys_foldl_after, hms, exists_exists_and_eq_and]
    refine or_congr_right (exists_congr fun i => and_congr_right fun hi => ?_)
    exact h.marks i (hsub.subset (List.mem_append_left _ hi)) _ _
  have howed (i : Invocation) : Plan.isOwed watermark (answeredKeys s'.comments bot) i = true ↔
      (∀ j ∈ sent, i.source.key ≠ j.source.key) ∧
        Plan.isOwed watermark (answeredKeys s.comments bot) i = true := by
    rw [Plan.isOwed_iff, hkeys, Plan.isOwed_iff (answeredKeys s.comments bot)]
    simp only [not_or, not_exists, not_and, ne_eq]
    tauto
  have hdistinct : ∀ i ∈ sent, ∀ j ∈ unsent, j.source.key ≠ i.source.key := by
    have hnodup := h.nodup.sublist (hsub.map _)
    rw [List.map_append, List.nodup_append] at hnodup
    exact fun i hi j hj heq => hnodup.2.2 _ (List.mem_map_of_mem hi) _ (List.mem_map_of_mem hj)
      (Source.key_injective heq.symm)
  calc s'.owed bot watermark
      = (s.owed bot watermark).filter fun i => ∀ j ∈ sent, i.source.key ≠ j.source.key := by
        rw [owed, owed, hs.invocations, List.filter_filter]
        refine List.filter_congr fun i _ => ?_
        rw [Bool.eq_iff_iff, howed]
        simp
    _ = unsent := by
        rw [hsplit, List.filter_append, List.filter_eq_nil_iff.mpr, List.nil_append,
          List.filter_eq_self.mpr]
        · exact fun j hj => decide_eq_true fun i hi => hdistinct i hi j hj
        · exact fun i hi => by simpa using ⟨i, hi, rfl⟩

variable {settings : Settings} {census : RoleTable} {c : Context}

theorem milestones_make (settings : Settings) (c : Context) (s : Snapshot) (census : RoleTable) :
    (Plan.make settings c (s.facts census)).milestones settings =
      (Plan.make settings c (s.facts census)).ledger.posts
        (s.owed settings.botAccount c.watermark) ++
          (Plan.make settings c (s.facts census)).labelling settings := by
  rw [Plan.milestones, replies_make, Reply.renderAll, List.map_map]
  rfl

/-- **A pass that stops among its replies** leaves the others and the label. -/
theorem Answerable.milestones_after_posts (h : s.Answerable settings.botAccount)
    {sent unsent : List Invocation}
    (hsplit : s.owed settings.botAccount c.watermark = sent ++ unsent) :
    (Plan.make settings c ((((Plan.make settings c (s.facts census)).ledger.posts sent).foldl
      (Snapshot.after settings.botAccount) s).facts census)).milestones settings =
        (Plan.make settings c (s.facts census)).ledger.posts unsent ++
          (Plan.make settings c (s.facts census)).labelling settings := by
  let p := Plan.make settings c (s.facts census)
  let s' := (p.ledger.posts sent).foldl (Snapshot.after settings.botAccount) s
  let p' := Plan.make settings c (s'.facts census)
  have hfinds : p.Agrees p' := (agrees_foldl_after _ s _).plan c c census
  have howed : s'.owed settings.botAccount c.watermark = unsent :=
    h.owed_eq p.ledger hsplit fun body => by simp [Ledger.posts]
  -- the label has to change as before
  have hlabel : p'.labelChange = p.labelChange := by
    have hchange : s'.change = s.change := change_foldl_posted _ sent s
    rw [labelChange_make, labelChange_make, hchange, hfinds.readiness]
  calc p'.milestones settings
      = p'.ledger.posts (s'.owed settings.botAccount c.watermark) ++ p'.labelling settings :=
        milestones_make settings c s' census
    _ = p.ledger.posts unsent ++ p.labelling settings := by
        rw [howed, hfinds.ledger, Plan.labelling, hlabel, Plan.labelling]

/-- **A pass that has carried out its plan** leaves nothing. -/
theorem Answerable.milestones_after_all (h : s.Answerable settings.botAccount) :
    (Plan.make settings c ((((Plan.make settings c (s.facts census)).milestones settings).foldl
      (Snapshot.after settings.botAccount) s).facts census)).milestones settings = [] := by
  have howed : (((Plan.make settings c (s.facts census)).milestones settings).foldl
      (Snapshot.after settings.botAccount) s).owed settings.botAccount c.watermark = [] := by
    refine h.owed_eq (Plan.make settings c (s.facts census)).ledger (List.append_nil _).symm ?_
    simp [milestones_make, Ledger.posts, Plan.labelling]
  rw [milestones_make, howed, Plan.labelling, labelChange_eq_none]
  rfl

/-- **The next plan has the milestones that are left.** -/
theorem Answerable.milestones_eq (h : s.Answerable settings.botAccount)
    {ms rest : List Milestone}
    (hplan : (Plan.make settings c (s.facts census)).milestones settings = ms ++ rest) :
    (Plan.make settings c ((ms.foldl (Snapshot.after settings.botAccount) s).facts
      census)).milestones settings = rest := by
  -- the pass has stopped behind the replies, or among them
  rcases List.append_eq_append_iff.mp (milestones_make settings c s census ▸ hplan) with
    ⟨done, rfl, hlabel⟩ | ⟨left, hposts, rfl⟩
  · cases done with
    | nil =>
      rw [List.append_nil, h.milestones_after_posts (List.append_nil _).symm, hlabel]
      rfl
    | cons m done =>
      -- the label was the last milestone
      have hrest : rest = [] := by
        have hlength := Plan.length_labelling (Plan.make settings c (s.facts census)) settings
        rw [hlabel, List.length_append, List.length_cons] at hlength
        exact List.length_eq_zero_iff.mp (by omega)
      rw [hrest, List.append_nil] at hplan
      rw [← hplan, h.milestones_after_all, hrest]
  · obtain ⟨sent, unsent, hsplit, rfl, rfl⟩ := List.map_eq_append_iff.mp hposts
    exact h.milestones_after_posts hsplit

end Snapshot

namespace Reconciler

/-- The world after so many passes, one after another. -/
def afterPasses (r : Reconciler) (id : String) : Nat → World → World
  | 0, w => w
  | n + 1, w => r.afterPasses id n (r.runPass id w).2

variable {r : Reconciler} {id : String} {w : World} {s : Snapshot}

/-- What a plan leaves to do has the time that is left. -/
theorem hasTime_after {w₁ : World} {ms rest : List Milestone} (htime : r.HasTime id w s)
    (hplan : (r.planFor id w s).milestones r.settings = ms ++ rest)
    (hrest : (r.planFor id w₁ (ms.foldl (Snapshot.after r.settings.botAccount) s)).milestones
      r.settings = rest) :
    r.HasTime id w₁ (ms.foldl (Snapshot.after r.settings.botAccount) s) := by
  have hall := Plan.length_posted (r.planFor id w s) r.settings
  rw [hplan, List.filterMap_append, List.length_append] at hall
  rw [HasTime, ← Plan.length_posted _ r.settings, hrest, Snapshot.secondsLeft_foldl_after]
  rw [HasTime] at htime
  omega

/-- **Passes that are run again and again complete**, if there is time for the first plan. They do
so after a failed one for each fault at most, and have carried out that plan by then. -/
theorem exists_afterPasses (hs : w.HostsAlone id s) (hm : w.memory.WellPlaced)
    (hbot : w.forge.bot = r.settings.botAccount) (ha : s.Answerable r.settings.botAccount)
    (htime : r.HasTime id w s) :
    ∃ n ≤ w.faults.length,
      (∀ k < n, ∃ e, (r.runPass id (r.afterPasses id k w)).1 = .error e) ∧
      ∃ report w', r.runPass id (r.afterPasses id n w) = (.ok (.completed report), w') ∧
        ((r.planFor id w s).report id (w.memory.contextOf id)).Agrees report ∧
        w'.forge = ((r.planFor id w s).milestones r.settings).foldl (Forge.after id) w.forge := by
  induction hn : w.faults.length using Nat.strong_induction_on generalizing w s with
  | _ N ih =>
    subst hn
    obtain ⟨hends, hrests⟩ := r.concludes_runPass hs hm
    generalize hout : r.runPass id w = out at hends hrests
    obtain ⟨result, w₁⟩ := out
    cases hends with
    | aborted hnone hforge hcontext hfaults => exact absurd htime hnone
    | completed _ hforge hcontext hfaults =>
      exact ⟨0, Nat.zero_le _, nofun, _, w₁, hout, ⟨rfl, rfl, rfl, rfl⟩, hforge⟩
    | failed e hplan hforge hcontext hfaults =>
      rename_i ms rest
      obtain ⟨hs₁, hbot₁⟩ := hostsAlone_of_forge hs hrests hforge
      rw [hbot] at hs₁ hbot₁
      have hagrees := Snapshot.agrees_foldl_after r.settings.botAccount s ms
      -- the next pass finds the same and has the rest to do
      have hplan₁ : (r.planFor id w s).Agrees
          (r.planFor id w₁ (ms.foldl (Snapshot.after r.settings.botAccount) s)) := by
        rw [planFor, planFor, hcontext, hrests.census]
        exact hagrees.plan _ _ _
      have hrest : (r.planFor id w₁ (ms.foldl (Snapshot.after r.settings.botAccount) s)).milestones
          r.settings = rest := by
        rw [planFor, hcontext, hrests.census]
        exact ha.milestones_eq hplan
      obtain ⟨n, hn, hfail, report, w', hrun, hreport, hforge'⟩ :=
        ih _ hfaults hs₁ hrests.placed hbot₁ (ha.of_agrees hagrees)
          (hasTime_after htime hplan hrest) rfl
      have hnext (k : Nat) : r.afterPasses id (k + 1) w = r.afterPasses id k w₁ := by
        rw [afterPasses, hout]
      refine ⟨n + 1, by omega, fun k hk => ?_, report, w', ?_, ?_, ?_⟩
      · cases k with
        | zero => exact ⟨e, by rw [afterPasses, hout]⟩
        | succ k =>
          rw [hnext]
          exact hfail k (by omega)
      · rw [hnext, hrun]
      · exact (hplan₁.report id _ _).trans hreport
      · rw [hforge', hrest, hforge, hplan, List.foldl_append]

end Reconciler

/-- **Faults do not change where a change request ends up.** If there is time for the replies that
are owed, then whatever calls fail and however they are retried, passes that are run again and again
end, after a failed one for each fault at most, in one that completes, and then the forge is as a
single pass without faults leaves it, which finds the same. -/
theorem runPass_resumes (r : Reconciler) {id : String} {w : World} {s : Snapshot}
    (hs : w.forge.snapshot? id = some s) (hbot : w.forge.bot = r.settings.botAccount)
    (hids : (s.comments.map (·.id)).Nodup) (hwords : ∀ c ∈ s.comments, Unbroken c.id.toList)
    (hunmarked : s.Unmarked r.settings.botAccount) (halone : w.interruptions = {})
    (hplaced : w.memory.WellPlaced) (htime : r.HasTime id w s) :
    ∃ report' sound, r.runPass id { w with faults := [] } = (.ok (.completed report'), sound) ∧
      ∃ n ≤ w.faults.length,
        (∀ k < n, ∃ e, (r.runPass id (r.afterPasses id k w)).1 = .error e) ∧
        ∃ report w', r.runPass id (r.afterPasses id n w) = (.ok (.completed report), w') ∧
          report'.Agrees report ∧ w'.forge = sound.forge := by
  have hhosts : w.HostsAlone id s := ⟨hs, trivial, halone⟩
  have hhosts₀ : { w with faults := [] }.HostsAlone id s := ⟨hs, trivial, halone⟩
  obtain ⟨sound, hsound, hforge, -⟩ := r.runPass_of_faultless hhosts₀ hplaced rfl htime
  obtain ⟨n, hn, hfail, report, w', hrun, hreport, hforge'⟩ :=
    Reconciler.exists_afterPasses hhosts hplaced hbot (hunmarked.answerable hids hwords) htime
  exact ⟨_, sound, hsound, n, hn, hfail, report, w', hrun, hreport, hforge'.trans hforge.symm⟩

/-- **Where no second is left for a reply that is owed**, one pass aborts after the other. -/
theorem Reconciler.aborts_afterPasses {r : Reconciler} {id : String} {w : World} {s : Snapshot}
    (hs : w.HostsAlone id s) (hplaced : w.memory.WellPlaced) (hfaults : w.faults = [])
    (hnone : s.secondsLeft = 0) (htime : ¬ r.HasTime id w s) (n : Nat) :
    (r.runPass id (r.afterPasses id n w)).1 = .error .aborted := by
  induction n generalizing w with
  | zero => exact (r.settles_runPass hs hplaced hfaults).result.trans (if_neg htime)
  | succ n ih =>
    obtain ⟨-, hforge, hcontext, hfaults', hrests⟩ := r.settles_runPass hs hplaced hfaults
    rw [if_neg htime, hnone, List.take_zero] at hforge
    rw [if_neg htime] at hcontext
    refine ih (hostsAlone_of_forge hs hrests hforge).1 hrests.placed hfaults' ?_
    rwa [HasTime, planFor, hcontext, hrests.census]

/-- In the last second of the clock no pass ever completes. -/
theorem lateSnapshot_never_done :
    ((worldOf lateSnapshot).forge.bot = plainReconciler.settings.botAccount ∧
      (lateSnapshot.comments.map (·.id)).Nodup ∧
      lateSnapshot.Unmarked plainReconciler.settings.botAccount ∧
      (worldOf lateSnapshot).interruptions = {} ∧ (worldOf lateSnapshot).faults = []) ∧
    ∀ n, (plainReconciler.runPass "1"
      (plainReconciler.afterPasses "1" n (worldOf lateSnapshot))).1 = .error .aborted := by
  have hunmarked : lateSnapshot.Unmarked plainReconciler.settings.botAccount := by decide +kernel
  have htime : ¬ plainReconciler.HasTime "1" (worldOf lateSnapshot) lateSnapshot := by
    decide +kernel
  exact ⟨⟨rfl, .nil, hunmarked, rfl, rfl⟩, Reconciler.aborts_afterPasses
    (hostsAlone_worldOf lateSnapshot) Memory.wellPlaced_empty rfl (by decide) htime⟩

/-- The first reply fails for good, and later the label. -/
def twoFaults : List (Operation × Failure) :=
  [(.postComment, .reported false "forge.post_comment" "gone"),
    (.setLabel, .reported false "forge.set_label" "gone")]

/-- The forge ends up as if nothing had failed. -/
theorem runPass_resumes_askedWorld :
    ((askedWorld twoFaults).forge.bot = plainReconciler.settings.botAccount ∧
      (askedSnapshot.comments.map (·.id)).Nodup ∧
      (∀ c ∈ askedSnapshot.comments, Unbroken c.id.toList) ∧
      askedSnapshot.Unmarked plainReconciler.settings.botAccount ∧
      (askedWorld twoFaults).memory.WellPlaced ∧
      plainReconciler.HasTime "1" (askedWorld twoFaults) askedSnapshot) ∧
    ∃ n ≤ 2, ∃ report w', plainReconciler.runPass "1"
        (plainReconciler.afterPasses "1" n (askedWorld twoFaults)) =
          (.ok (.completed report), w') ∧
      w'.forge = (plainReconciler.runPass "1" (askedWorld [])).2.forge := by
  have hids : (askedSnapshot.comments.map (·.id)).Nodup := by decide
  have hwords : ∀ c ∈ askedSnapshot.comments, Unbroken c.id.toList := by decide
  have hunmarked : askedSnapshot.Unmarked plainReconciler.settings.botAccount := by
    decide +kernel
  have htime : plainReconciler.HasTime "1" (askedWorld twoFaults) askedSnapshot :=
    Reconciler.hasTime_of_lt (by decide)
  obtain ⟨report', sound, hsound, n, hn, -, report, w', hrun, -, hforge⟩ :=
    runPass_resumes plainReconciler (snapshot?_askedWorld twoFaults) rfl hids hwords hunmarked rfl
      Memory.wellPlaced_empty htime
  refine ⟨⟨rfl, hids, hwords, hunmarked, Memory.wellPlaced_empty, htime⟩, n, hn, report, w', hrun,
    ?_⟩
  rw [hforge, show plainReconciler.runPass "1" (askedWorld []) = _ from hsound]

end ReviewQuorum
