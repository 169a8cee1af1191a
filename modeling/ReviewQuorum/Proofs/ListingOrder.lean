import ReviewQuorum.Proofs.LatestReview
import ReviewQuorum.Proofs.SolePass

/-! # The order in which things are listed

A forge may list the comments and the reviews of a change request in any order. Where no two
comments have one moment, and no two reviews of one account, a pass makes the same plan whatever the
order is (`Snapshot.Relisted.make_eq`): comments are put in order before they are read, the latest
review of an account is found by its moment, and everything else that a pass takes from the lists
is a maximum or a membership.

What a pass adds does not depend on the order either, since a new comment gets its number and its
instant from maxima (`Snapshot.Relisted.after`). So passes over a change request and over another
listing of it end alike and post the same (`Reconciler.runPass_of_relisted`). -/

namespace ReviewQuorum

/-! ### Lists in another order -/

namespace Comment

variable {cs ds : List Comment}

/-- Comments of which no two have one moment are put in order in one way only. -/
theorem inOrder_eq_of_perm (h : cs.Perm ds) (hd : (ds.map (·.moment)).Nodup) :
    inOrder cs = inOrder ds := by
  refine StableOrder.mergeSort_eq_of_perm (Moment.le_trans_of Comment.moment)
    (Moment.le_total_of _) h ?_
  intro a ha b hb hab hba
  have hmoment : a.moment = b.moment := Moment.le_antisymm hab hba
  exact List.inj_on_of_nodup_map hd ha hb hmoment

theorem lastSequence?_eq_of_perm (h : cs.Perm ds) : lastSequence? cs = lastSequence? ds := by
  have hmem (n : Nat) : n ∈ cs.map (·.moment.sequence) ↔ n ∈ ds.map (·.moment.sequence) :=
    (h.map _).mem_iff
  refine Option.ext fun n => ?_
  rw [lastSequence?, lastSequence?, List.max?_eq_some_iff, List.max?_eq_some_iff]
  simp only [hmem]

end Comment

namespace Review

variable {reviews reviews' : List Review}

/-- Reviews of which no two of one account have one moment have one latest of each account. -/
theorem latest_eq_of_perm (h : reviews.Perm reviews')
    (hd : (reviews'.map fun r => (r.reviewer, r.moment)).Nodup) :
    latest reviews = latest reviews' := by
  refine Dict.ext_get? fun a => ?_
  rw [get?_latest, get?_latest, latestOf?, latestOf?, inOrderOf, inOrderOf]
  rw [StableOrder.mergeSort_eq_of_perm (Moment.le_trans_of Review.moment) (Moment.le_total_of _)
    (h.filter fun r => r.reviewer == a)]
  intro r hr r' hr' hle hle'
  obtain ⟨hr, hreviewer⟩ := List.mem_filter.mp hr
  obtain ⟨hr', hreviewer'⟩ := List.mem_filter.mp hr'
  have hsame : r.reviewer = r'.reviewer :=
    (beq_iff_eq.mp hreviewer).trans (beq_iff_eq.mp hreviewer').symm
  have hmoment : r.moment = r'.moment := Moment.le_antisymm hle hle'
  exact List.inj_on_of_nodup_map hd hr hr' (Prod.ext hsame hmoment)

end Review

namespace Snapshot

/-! ### A change request that is listed in another way -/

/-- **The same change request, its comments and reviews listed in another order.** -/
structure Relisted (s s' : Snapshot) : Prop where
  change : s'.change = s.change
  comments : s'.comments.Perm s.comments
  reviews : s'.reviews.Perm s.reviews

/-- No two comments have one moment, and no two reviews of one account. -/
structure Distinct (s : Snapshot) : Prop where
  comments : (s.comments.map (·.moment)).Nodup
  reviews : (s.reviews.map fun r => (r.reviewer, r.moment)).Nodup

variable {s s' : Snapshot}

theorem Relisted.extract_eq (h : s.Relisted s') (hd : s.Distinct) (bot : Account) :
    Invocation.extract s'.change s'.comments bot = Invocation.extract s.change s.comments bot := by
  have hothers : (s'.comments.filter fun c => c.author != bot).Perm
      (s.comments.filter fun c => c.author != bot) := h.comments.filter _
  have hmoments : ((s.comments.filter fun c => c.author != bot).map (·.moment)).Nodup :=
    hd.comments.sublist (List.filter_sublist.map _)
  rw [Invocation.extract, Invocation.extract, h.change,
    Comment.inOrder_eq_of_perm hothers hmoments]

theorem Relisted.isOwed_eq (h : s.Relisted s') (watermark : Option Nat) (bot : Account) :
    Plan.isOwed watermark (Marker.answeredKeys s'.comments bot) =
      Plan.isOwed watermark (Marker.answeredKeys s.comments bot) := by
  have hkeys : (Marker.answeredKeys s'.comments bot).Perm (Marker.answeredKeys s.comments bot) :=
    (h.comments.filter _).flatMap_right _
  funext i
  rw [Plan.isOwed, Plan.isOwed, hkeys.contains_eq]

theorem Relisted.tally_eq (h : s.Relisted s') (hd : s.Distinct) (p : Policy)
    (roleOf : Account → Option Role) : p.tally s'.reviews roleOf = p.tally s.reviews roleOf := by
  simp only [Policy.tally, Tally.ofReviews, Approval.ofReviews,
    Review.latest_eq_of_perm h.reviews hd.reviews]

/-- **The plan is the same.** -/
theorem Relisted.make_eq (h : s.Relisted s') (hd : s.Distinct) (settings : Settings) (c : Context)
    (census : RoleTable) :
    Plan.make settings c (s'.facts census) = Plan.make settings c (s.facts census) := by
  have hinvocations := h.extract_eq hd settings.botAccount
  rw [h.change] at hinvocations
  have hsequence := Comment.lastSequence?_eq_of_perm h.comments
  rw [facts, facts, h.change]
  simp only [Plan.make, hinvocations, h.isOwed_eq, h.tally_eq hd, hsequence]

/-! ### What is added to it -/

theorem Relisted.lastActivity_eq (h : s.Relisted s') : s'.lastActivity = s.lastActivity := by
  rw [lastActivity, lastActivity, h.change]
  exact ((h.comments.map _).append (h.reviews.map _)).foldl_eq _

theorem Relisted.nextComment_eq (h : s.Relisted s') (author : Account) (body : String) :
    s'.nextComment author body = s.nextComment author body := by
  have hsequence : s'.nextSequence = s.nextSequence := by
    rw [nextSequence, nextSequence, Comment.lastSequence?_eq_of_perm h.comments]
  rw [nextComment, nextComment, commentAt, commentAt, hsequence, h.lastActivity_eq]

/-- **A milestone of a pass** adds the same comments. -/
theorem Relisted.after (h : s.Relisted s') (bot : Account) (m : Milestone) : ∃ added,
    (s.after bot m).comments = s.comments ++ added ∧
      (s'.after bot m).comments = s'.comments ++ added ∧
      (s.after bot m).Relisted (s'.after bot m) := by
  cases m with
  | posted body =>
    have hnext := h.nextComment_eq bot body
    refine ⟨[s.nextComment bot body], rfl, congrArg (s'.comments ++ [·]) hnext, h.change, ?_,
      h.reviews⟩
    change (s'.comments ++ [s'.nextComment bot body]).Perm (s.comments ++ [s.nextComment bot body])
    rw [hnext]
    exact h.comments.append_right _
  | labelled label present =>
    have hchange : (s'.setLabel label present).change = (s.setLabel label present).change := by
      rw [setLabel, setLabel, h.change]
    exact ⟨[], (List.append_nil _).symm, (List.append_nil _).symm, hchange, h.comments, h.reviews⟩
  | change _ | comments _ | reviews _ | ticket _ =>
    exact ⟨[], (List.append_nil _).symm, (List.append_nil _).symm, h⟩

/-- **The milestones of a pass** add the same comments. -/
theorem Relisted.foldl_after (h : s.Relisted s') (bot : Account) (ms : List Milestone) : ∃ added,
    (ms.foldl (Snapshot.after bot) s).comments = s.comments ++ added ∧
      (ms.foldl (Snapshot.after bot) s').comments = s'.comments ++ added := by
  induction ms generalizing s s' with
  | nil => exact ⟨[], (List.append_nil _).symm, (List.append_nil _).symm⟩
  | cons m ms ih =>
    obtain ⟨first, hfirst, hfirst', hrelisted⟩ := h.after bot m
    obtain ⟨others, hothers, hothers'⟩ := ih hrelisted
    refine ⟨first ++ others, ?_, ?_⟩
    · rw [List.foldl_cons, hothers, hfirst, List.append_assoc]
    · rw [List.foldl_cons, hothers', hfirst', List.append_assoc]

end Snapshot

/-! ### Passes over it -/

namespace Reconciler

variable {id : String} {w : World} {s s' : Snapshot}

theorem hasTime_of_relisted (r : Reconciler) (hdistinct : s.Distinct) (h : s.Relisted s') :
    r.HasTime id { w with forge := w.forge.put id s' } s' ↔ r.HasTime id w s := by
  have hplan : r.planFor id { w with forge := w.forge.put id s' } s' = r.planFor id w s :=
    h.make_eq hdistinct r.settings _ _
  rw [HasTime, HasTime, hplan, Snapshot.secondsLeft, h.lastActivity_eq, Snapshot.secondsLeft]

/-- **Passes over a change request and over another listing of it** end alike, with the same report
or for want of time, and add the same comments, in a world without faults and where nobody else
acts. -/
theorem runPass_of_relisted (r : Reconciler) (hs : w.HostsAlone id s)
    (hplaced : w.memory.WellPlaced) (hfaults : w.faults = []) (hdistinct : s.Distinct)
    (h : s.Relisted s') : ∃ result added w₁ w₂,
      (r.HasTime id w s → ∃ report, result = .ok (.completed report)) ∧
      r.runPass id w = (result, w₁) ∧
      r.runPass id { w with forge := w.forge.put id s' } = (result, w₂) ∧
      (∃ s₁, w₁.forge.snapshot? id = some s₁ ∧ s₁.comments = s.comments ++ added) ∧
      ∃ s₂, w₂.forge.snapshot? id = some s₂ ∧ s₂.comments = s'.comments ++ added := by
  have hs' : World.HostsAlone id { w with forge := w.forge.put id s' } s' :=
    ⟨Forge.snapshot?_put _ _ _, trivial, hs.calm⟩
  have hplan : r.planFor id { w with forge := w.forge.put id s' } s' = r.planFor id w s :=
    h.make_eq hdistinct r.settings _ _
  have hseconds : s'.secondsLeft = s.secondsLeft := congrArg Timestamp.secondsLeft h.lastActivity_eq
  have hfirst := r.settles_runPass hs hplaced hfaults
  have hsecond := r.settles_runPass hs' hplaced hfaults
  have hresult := hsecond.result
  have hforge := hsecond.forge
  simp only [r.hasTime_of_relisted hdistinct h, hplan, hseconds] at hresult hforge
  obtain ⟨added, hadded, hadded'⟩ := h.foldl_after w.forge.bot
    (if r.HasTime id w s then (r.planFor id w s).milestones r.settings
      else ((r.planFor id w s).milestones r.settings).take s.secondsLeft)
  refine ⟨(r.runPass id w).1, added, (r.runPass id w).2,
    (r.runPass id { w with forge := w.forge.put id s' }).2,
    fun htime => ⟨_, hfirst.result.trans (if_pos htime)⟩, rfl,
    Prod.ext (hresult.trans hfirst.result.symm) rfl, ?_, ?_⟩
  · exact ⟨_, (hostsAlone_of_forge hs hfirst.rests hfirst.forge).1.snapshot, hadded⟩
  · exact ⟨_, (hostsAlone_of_forge hs' hsecond.rests hforge).1.snapshot, hadded'⟩

end Reconciler

/-- A change request with two commands and with two reviews of one account. -/
def discussedSnapshot : Snapshot where
  change := ⟨"1", "alice", "", ⟨0⟩, Dict.empty⟩
  comments := [⟨"c1", "bob", "/reviewers 3", ⟨⟨1⟩, 1⟩⟩, ⟨"c2", "alice", "/reviewers 2", ⟨⟨2⟩, 2⟩⟩]
  reviews := [⟨"bob", .approved, ⟨⟨3⟩, 1⟩⟩, ⟨"bob", .disapproved, ⟨⟨4⟩, 2⟩⟩]

/-- The change request, listed from the end. -/
def discussedBackwards : Snapshot where
  change := discussedSnapshot.change
  comments := discussedSnapshot.comments.reverse
  reviews := discussedSnapshot.reviews.reverse

/-- It may be listed from the end. -/
theorem runPass_of_relisted_backwards :
    let w := World.start ((Forge.empty "revgate-bot").insert discussedSnapshot) .empty
    (discussedBackwards.comments ≠ discussedSnapshot.comments ∧ discussedSnapshot.Distinct ∧
      discussedSnapshot.Relisted discussedBackwards ∧ w.memory.WellPlaced ∧ w.faults = []) ∧
    ∃ report added w₁ w₂,
      (Reconciler.ofSettings {}).runPass "1" w = (.ok (.completed report), w₁) ∧
      (Reconciler.ofSettings {}).runPass "1"
        { w with forge := w.forge.put "1" discussedBackwards } = (.ok (.completed report), w₂) ∧
      (∃ s₁, w₁.forge.snapshot? "1" = some s₁ ∧
        s₁.comments = discussedSnapshot.comments ++ added) ∧
      ∃ s₂, w₂.forge.snapshot? "1" = some s₂ ∧
        s₂.comments = discussedBackwards.comments ++ added := by
  intro w
  have hs : w.HostsAlone "1" discussedSnapshot := ⟨by decide +kernel, trivial, rfl⟩
  have hdistinct : discussedSnapshot.Distinct := ⟨by decide, by decide⟩
  have hrelisted : discussedSnapshot.Relisted discussedBackwards :=
    ⟨rfl, List.reverse_perm _, List.reverse_perm _⟩
  have htime : (Reconciler.ofSettings {}).HasTime "1" w discussedSnapshot :=
    Reconciler.hasTime_of_lt (by decide)
  obtain ⟨result, added, w₁, w₂, hends, hrun, hrun', hcomments, hcomments'⟩ :=
    (Reconciler.ofSettings {}).runPass_of_relisted hs Memory.wellPlaced_empty rfl hdistinct
      hrelisted
  obtain ⟨report, rfl⟩ := hends htime
  exact ⟨⟨by decide, hdistinct, hrelisted, Memory.wellPlaced_empty, rfl⟩, report, added, w₁, w₂,
    hrun, hrun', hcomments, hcomments'⟩

end ReviewQuorum
