import ReviewQuorum.Proofs.PastRulings
import ReviewQuorum.Proofs.Resumption

/-! # What a pass leaves as it is

A pass that fails ends with the call that failed (`Pass.FailsAt`). Up to its replies it only asks;
so if a question about the facts has failed, all its questions were such ones, and they leave the
forge alone (`World.spared_run`). If a reply or the label could not be written, some first replies
of those that are owed stand, and nothing else has changed: the label comes last, so a pass that
fails has not written it.

The forge is not said to know the change request. If it does not, every call about it fails, so
that a pass has no facts (`World.changesIn_of_unknown`) and cannot complete.

`Reconciler.runPass_leaves` puts this together with what is remembered of the change request. -/

namespace ReviewQuorum

/-! ### What answers leave -/

namespace Memory

/-- Every change request that is tracked keeps its slot. -/
def KeepsTracked (m m' : Memory) : Prop :=
  ∀ id place, m.tracked.get? id = some place → m'.tracked.get? id = some place

theorem KeepsTracked.refl (m : Memory) : m.KeepsTracked m := fun _ _ h => h

theorem KeepsTracked.trans {m m' m'' : Memory} (h : m.KeepsTracked m') (h' : m'.KeepsTracked m'') :
    m.KeepsTracked m'' := fun id place hp => h' id place (h id place hp)

theorem keepsTracked_locate (m : Memory) (id : String) : m.KeepsTracked (m.locate id).2 := by
  intro id' place hplace
  unfold locate
  split
  · exact hplace
  · rename_i hnone
    rw [Dict.get?_insert, if_neg, hplace]
    rintro rfl
    rw [hnone] at hplace
    cases hplace

theorem get?_tracked_locate (m : Memory) (id : String) :
    (m.locate id).2.tracked.get? id = some (m.locate id).1 := by
  unfold locate
  split
  · assumption
  · exact Dict.get?_insert_self _ _ _

end Memory

namespace World

variable {id : String} {place ticket : Nat} {w : World} {α : Type}

theorem attempt_keeps {P : World → Prop} (w : World) (o : Operation)
    {go : World → Except Failure α × World}
    (hfault : ∀ faults, faults.Sublist w.faults → P { w with faults := faults })
    (hgo : P (go w).2) : P (w.attempt o go).2 := by
  unfold attempt takeFault
  cases w.faults.find? fun f => f.1 == o with
  | none => exact hgo
  | some f => exact hfault _ List.eraseP_sublist

theorem onChange_keeps {P : World → Prop} (w : World) (o : Operation) (id : String)
    {go : Snapshot → World → Except Failure α × World}
    (hfault : ∀ faults, faults.Sublist w.faults → P { w with faults := faults })
    (hgo : ∀ s, w.forge.snapshot? id = some s → P (go s w).2) : P (w.onChange o id go).2 := by
  refine attempt_keeps w o hfault ?_
  cases hs : w.forge.snapshot? id with
  | none => exact hfault w.faults (List.Sublist.refl _)
  | some s => exact hgo s hs

/-- **What an answer leaves**: the faults that it does not take, the slots of tracked change
requests, all of the memory where nobody interrupts, and the forge if the question is not to write
or is about a change request that it does not know. -/
structure Spared (id : String) (isRead : Bool) (w w' : World) : Prop where
  faults : w'.faults.Sublist w.faults
  tracks : w.memory.KeepsTracked w'.memory
  calm : w.interruptions = {} → w'.interruptions = {} ∧ w'.memory = w.memory
  read : isRead → w'.forge = w.forge
  unknown : w.forge.snapshot? id = none → w'.forge = w.forge

theorem Spared.refl (id : String) (isRead : Bool) (w : World) : Spared id isRead w w :=
  ⟨List.Sublist.refl _, .refl _, fun h => ⟨h, rfl⟩, fun _ => rfl, fun _ => rfl⟩

theorem Spared.mono {a b : Bool} {w' : World} (h : Spared id a w w') (hba : b → a) :
    Spared id b w w' :=
  ⟨h.faults, h.tracks, h.calm, fun hb => h.read (hba hb), h.unknown⟩

theorem Spared.trans {isRead : Bool} {w' w'' : World} (h : Spared id isRead w w')
    (h' : Spared id isRead w' w'') : Spared id isRead w w'' where
  faults := h'.faults.trans h.faults
  tracks := h.tracks.trans h'.tracks
  calm hcalm :=
    ⟨(h'.calm (h.calm hcalm).1).1, (h'.calm (h.calm hcalm).1).2.trans (h.calm hcalm).2⟩
  read hread := (h'.read hread).trans (h.read hread)
  unknown hnone := (h'.unknown (h.unknown hnone ▸ hnone)).trans (h.unknown hnone)

theorem spared_fault {isRead : Bool} {faults : List (Operation × Failure)}
    (h : faults.Sublist w.faults) : Spared id isRead w { w with faults := faults } :=
  ⟨h, .refl _, fun hcalm => ⟨hcalm, rfl⟩, fun _ => rfl, fun _ => rfl⟩

theorem spared_of_known {s : Snapshot} (hs : w.forge.snapshot? id = some s) (forge : Forge) :
    Spared id false w { w with forge := forge } := by
  refine ⟨List.Sublist.refl _, .refl _, fun hcalm => ⟨hcalm, rfl⟩, nofun, fun hnone => ?_⟩
  rw [hs] at hnone
  cases hnone

theorem spared_interruptByRival (w : World) (id : String) :
    Spared id true w (w.interruptByRival id) := by
  unfold interruptByRival
  split
  · exact .refl id true w
  · rename_i n hrivals
    have htracks : w.memory.KeepsTracked
        ((w.memory.locate id).2.takeTicket (w.memory.locate id).1).2 :=
      Memory.keepsTracked_locate w.memory id
    refine ⟨List.Sublist.refl _, htracks, fun hcalm => ?_, fun _ => rfl, fun _ => rfl⟩
    rw [hcalm] at hrivals
    cases hrivals

theorem spared_interruptByComment (w : World) (id : String) :
    Spared id false w (w.interruptByComment id) := by
  unfold interruptByComment
  split
  · exact .refl id false w
  · rename_i author body rest hcomments
    refine ⟨List.Sublist.refl _, .refl _, fun hcalm => ?_, nofun, fun hnone => ?_⟩
    · rw [hcalm] at hcomments
      cases hcomments
    · rw [comment, Forge.modify, hnone]

theorem spared_interruptByFailure (w : World) (id : String) :
    Spared id false w w.interruptByFailure.2 := by
  unfold interruptByFailure
  split
  · exact .refl id false w
  all_goals
    rename_i hfailure
    refine ⟨List.Sublist.refl _, .refl _, fun hcalm => ?_, nofun, fun _ => rfl⟩
    rw [hcalm] at hfailure
    cases hfailure

/-- **What an answer leaves.** -/
theorem spared_answer (q : Query) (w : World) :
    Spared id q.isRead w (answer id place ticket q w).2 := by
  cases q with
  | changeRequest =>
    exact onChange_keeps w _ id (fun _ => spared_fault) fun _ _ => .refl id true w
  | comments => exact onChange_keeps w _ id (fun _ => spared_fault) fun _ _ => .refl id true w
  | reviews =>
    exact (spared_interruptByRival w id).trans
      (onChange_keeps _ _ id (fun _ => spared_fault) fun _ _ => .refl id true _)
  | roleOf account => exact attempt_keeps w _ (fun _ => spared_fault) (.refl id true w)
  | isLatest => exact .refl id true w
  | postComment body =>
    have hinterrupted := (spared_interruptByComment w id).trans
      (spared_interruptByFailure (w.interruptByComment id) id)
    rw [answer, interruptedPost]
    split
    · rename_i f w₁ hfailure
      rw [hfailure] at hinterrupted
      exact hinterrupted
    · rename_i w₁ hfailure
      rw [hfailure] at hinterrupted
      refine hinterrupted.trans
        (onChange_keeps w₁ _ id (fun _ => spared_fault) fun s hs => ?_)
      rw [addReply_eq]
      split_ifs
      · exact spared_of_known hs _
      · exact .refl id false w₁
  | setLabel label present =>
    exact onChange_keeps w _ id (fun _ => spared_fault) fun s hs => spared_of_known hs _
  | pause ms =>
    exact ⟨List.Sublist.refl _, .refl _, fun hcalm => ⟨hcalm, rfl⟩, fun _ => rfl, fun _ => rfl⟩

/-- **What a program of a pass leaves**; `isRead` says whether it only asks. -/
theorem spared_run {isRead : Bool} (p : Inquiry α) (w : World)
    (h : isRead → ∀ x ∈ p.exchanges (answer id place ticket) w, x.query.isRead) :
    Spared id isRead w (p.run (answer id place ticket) w).2 := by
  induction p generalizing w with
  | done a => exact .refl id isRead w
  | ask q next ih =>
    have hfirst : Spared id isRead w (answer id place ticket q w).2 :=
      (spared_answer q w).mono fun hread => h hread _ List.mem_cons_self
    have hrest : Spared id isRead (answer id place ticket q w).2 _ :=
      ih (answer id place ticket q w).1 _ fun hread x hx => h hread x (List.mem_cons_of_mem _ hx)
    exact hfirst.trans hrest

theorem onChange_of_unknown (hnone : w.forge.snapshot? id = none) (o : Operation)
    (go : Snapshot → World → Except Failure α × World) :
    ∃ f, (w.onChange o id go).1 = .error f := by
  have hcases : ∃ faults, (∃ f, w.onChange o id go = (.error f, { w with faults := faults })) ∨
      w.onChange o id go = (.error (o.notFound id), { w with faults := faults }) := by
    refine (w.attempt_cases o _).imp fun faults hcases => hcases.imp_right fun hc => hc.trans ?_
    simp only [hnone]
  obtain ⟨faults, ⟨f, hc⟩ | hc⟩ := hcases
  · exact ⟨f, by rw [hc]⟩
  · exact ⟨_, by rw [hc]⟩

theorem changesIn_of_unknown (hnone : w.forge.snapshot? id = none) (p : Inquiry α) :
    Pass.changesIn (p.exchanges (answer id place ticket) w) = [] := by
  induction p generalizing w with
  | done a => rfl
  | ask q next ih =>
    have hforge : (answer id place ticket q w).2.forge = w.forge :=
      (spared_answer q w).unknown hnone
    have hrest := ih (answer id place ticket q w).1 (w := (answer id place ticket q w).2)
      (by rw [hforge, hnone])
    have hfirst : Exchange.change? ⟨q, (answer id place ticket q w).1⟩ = none := by
      cases q with
      | changeRequest =>
        obtain ⟨f, hf⟩ := onChange_of_unknown hnone .changeRequest fun s w => (.ok s.change, w)
        rw [answer, hf]
        rfl
      | _ => rfl
    rw [Program.exchanges, Pass.changesIn, List.filterMap_cons, hfirst]
    exact hrest

end World

/-! ### What replies leave -/

namespace Forge

variable {f : Forge} {id : String} {s : Snapshot}

theorem put_self (h : f.snapshot? id = some s) : f.put id s = f := by
  have hchanges : f.changes.insert id s = f.changes := by
    refine Dict.ext_get? fun k => ?_
    rw [Dict.get?_insert]
    split_ifs with hk
    · rw [← hk, ← h]
      rfl
    · rfl
  rw [put, hchanges]

theorem put_put (f : Forge) (id : String) (s s' : Snapshot) :
    (f.put id s).put id s' = f.put id s' := by
  have hchanges : (f.changes.insert id s).insert id s' = f.changes.insert id s' := by
    refine Dict.ext_get? fun k => ?_
    simp only [Dict.get?_insert]
    split_ifs <;> rfl
  exact congrArg (Forge.mk f.bot · f.labelWrites) hchanges

/-- **Replies that are posted** are added as comments of the bot, and nothing else changes. -/
theorem exists_foldl_posted {α : Type} (body : α → String) (xs : List α)
    (h : f.snapshot? id = some s) : ∃ added, (∀ c ∈ added, c.author = f.bot) ∧
      added.map (·.body) = xs.map body ∧
      (xs.map fun x => Milestone.posted (body x)).foldl (Forge.after id) f =
        f.put id { s with comments := s.comments ++ added } := by
  induction xs generalizing f s with
  | nil =>
    refine ⟨[], by simp, rfl, ?_⟩
    rw [List.append_nil]
    exact (put_self h).symm
  | cons x xs ih =>
    have hfirst : f.after id (.posted (body x)) = f.put id (s.commented f.bot (body x)) :=
      modify_eq h _
    obtain ⟨added, hbot, hbodies, hforge⟩ := ih (snapshot?_put f id (s.commented f.bot (body x)))
    refine ⟨s.nextComment f.bot (body x) :: added, ?_, ?_, ?_⟩
    · intro c hc
      rcases List.mem_cons.mp hc with rfl | hc
      · rfl
      · exact hbot c hc
    · rw [List.map_cons, List.map_cons, hbodies]
      rfl
    · rw [List.map_cons, List.foldl_cons, hfirst, hforge, put_put, Snapshot.comments_commented,
        List.append_assoc]
      rfl

end Forge

/-! ### Passes -/

namespace Reconciler

/-- **Some first replies of those that are owed have been added**, and nothing else has changed on
the forge. -/
def AddsReplies (r : Reconciler) (id : String) (w w' : World) : Prop :=
  ∃ s sent added, w.forge.snapshot? id = some s ∧
    sent <+: s.owed r.settings.botAccount (w.memory.contextOf id).watermark ∧
    (∀ c ∈ added, c.author = w.forge.bot) ∧
    added.map (·.body) = sent.map (fun i => Reply.render i
      ((s.ledger r.settings.botAccount w.census.roleOf).rulingFor? i.source)) ∧
    w'.forge = w.forge.put id { s with comments := s.comments ++ added }

/-- **What a pass leaves**, by its result. -/
inductive Leaves (r : Reconciler) (id : String) (w : World) (t : Pass.Trace) (w' : World) :
    Except Failure PassResult → Prop
  | failed {e : Failure} {x : Exchange Query Query.Answer} (hfails : Pass.FailsAt t x e)
    (hcontext : w'.memory.contextOf id = w.memory.contextOf id)
    (hfaults : w'.faults.Sublist w.faults)
    (hforge : if x.query.isRead then w'.forge = w.forge else r.AddsReplies id w w') :
    Leaves r id w t w' (.error e)
  | completed {report : Report} {s : Snapshot} (hs : w.forge.snapshot? id = some s)
    (hpasses : (w'.memory.contextOf id).passes = (w.memory.contextOf id).passes + 1)
    (hwatermark : (w'.memory.contextOf id).watermark =
      ((w.memory.contextOf id).watermark.toList ++ s.comments.map (·.moment.sequence)).max?)
    (hgrows : ∀ n, (w.memory.contextOf id).watermark = some n →
      ∃ m, (w'.memory.contextOf id).watermark = some m ∧ n ≤ m)
    (hreadiness : (w'.memory.contextOf id).readiness = some report.readiness) :
    Leaves r id w t w' (.ok (.completed report))

variable {r : Reconciler} {id : String} {w : World} {s : Snapshot}

theorem spared_ended (isRead : Bool) (h : isRead → ∀ x ∈ (r.record id w).trace, x.query.isRead) :
    World.Spared id isRead (enter id w).2.2 (r.ended id w).2 := World.spared_run _ _ h

theorem contextOf_ended (halone : w.interruptions = {}) (hm : w.memory.WellPlaced) :
    (r.ended id w).2.memory.contextOf id = w.memory.contextOf id := by
  have he : Entered id w _ _ _ := entered_enter hm
  have hspared : World.Spared id false (enter id w).2.2 (r.ended id w).2 := spared_ended false nofun
  rw [(hspared.calm (he.calm.trans halone)).2, he.tracks.contextOf, he.context]

theorem changesIn_record (hm : w.memory.WellPlaced) (hnone : w.forge.snapshot? id = none) :
    Pass.changesIn (r.record id w).trace = [] := by
  refine World.changesIn_of_unknown ?_ _
  rw [(entered_enter hm).forge, hnone]

/-- **A pass that has failed at a reply or at the label** has added some first replies. -/
theorem addsReplies_ended (hs : w.HostsAlone id s) (hm : w.memory.WellPlaced) {facts : Facts}
    {sent unsent : List (String × String)}
    (hlearnt : Pass.Learnt r.settings (r.record id w).trace facts)
    (hplan : (Plan.make r.settings (w.memory.contextOf id) facts).replies = sent ++ unsent)
    (h : Pass.milestonesIn (r.record id w).trace =
      facts.milestones ++ .ticket true :: sent.map fun y => .posted y.2) :
    r.AddsReplies id w (r.ended id w).2 := by
  have he : Entered id w _ _ _ := entered_enter hm
  have hfollowed := r.followed_record hs hm
  have htruth : Pass.Truthful w.census (r.record id w).trace := he.census ▸ hfollowed.truthful
  obtain ⟨-, hfacts⟩ := (h ▸ hfollowed.shows).facts_eq
  rw [Plan.make_of_learnt hlearnt htruth, hfacts, Snapshot.replies_make, Reply.renderAll] at hplan
  obtain ⟨first, others, howed, rfl, -⟩ := List.map_eq_append_iff.mp hplan
  let reply (i : Invocation) : String :=
    Reply.render i ((s.ledger r.settings.botAccount w.census.roleOf).rulingFor? i.source)
  have hforge : (r.ended id w).2.forge =
      (first.map fun i => Milestone.posted (reply i)).foldl (Forge.after id) w.forge := by
    rw [hfollowed.forge, h, List.foldl_append, he.forge, List.map_map]
    rfl
  obtain ⟨added, hbot, hbodies, hadded⟩ := Forge.exists_foldl_posted reply first hs.snapshot
  exact ⟨s, first, added, hs.snapshot, ⟨others, howed.symm⟩, hbot, hbodies, hforge.trans hadded⟩

/-- **What a pass leaves that fails.** -/
theorem leaves_of_failed (halone : w.interruptions = {}) (hm : w.memory.WellPlaced) {e : Failure}
    (he : (r.ended id w).1 = .error e) :
    r.Leaves id w (r.record id w).trace (r.ended id w).2 (.error e) := by
  have hentered : Entered id w _ _ _ := entered_enter hm
  have hspared : World.Spared id false (enter id w).2.2 (r.ended id w).2 := spared_ended false nofun
  have hcontext : (r.ended id w).2.memory.contextOf id = w.memory.contextOf id :=
    contextOf_ended halone hm
  have hreaches := r.reaches_record id hm
  rw [he] at hreaches
  cases hreaches with
  | @fruitless _ x hfails hreads =>
    have hread : x.query.isRead = true := hreads x (List.mem_of_getLast? hfails.last)
    have hforge : (r.ended id w).2.forge = w.forge :=
      ((spared_ended true fun _ => hreads).read rfl).trans hentered.forge
    refine .failed hfails hcontext hspared.faults ?_
    rw [if_pos hread]
    exact hforge
  | @broken _ x facts ms m rest hfails hquery hlearnt h hplan =>
    have hwrite : x.query.isRead = false := by
      rw [hquery, m.isRead_query]
      exact Plan.isRead_of_mem_milestones (hplan ▸ List.mem_append_right _ List.mem_cons_self)
    obtain ⟨sent, unsent, hreplies, rfl, -⟩ := Plan.exists_sent hplan
    refine .failed hfails hcontext hspared.faults ?_
    rw [if_neg (by rw [hwrite]; decide)]
    cases hs : w.forge.snapshot? id with
    | none =>
      have hchanges : Pass.changesIn (r.record id w).trace = [] := changesIn_record hm hs
      rw [Pass.changesIn_eq, h] at hchanges
      cases hchanges
    | some s => exact addsReplies_ended ⟨hs, trivial, halone⟩ hm hlearnt hreplies h

/-- The watermark of a plan is the largest of the old one and the numbers of the comments. -/
theorem laterWatermark_max? (numbers : List Nat) (watermark : Option Nat) :
    Plan.laterWatermark numbers.max? watermark = (watermark.toList ++ numbers).max? := by
  cases watermark with
  | none => cases h : numbers.max? <;> simp [Plan.laterWatermark, h]
  | some n =>
    have hcons : (n :: numbers).max? = some (numbers.max?.elim n (max n)) := List.max?_cons
    cases h : numbers.max? with
    | none => simp [Plan.laterWatermark, hcons, h]
    | some m => simp [Plan.laterWatermark, hcons, h, max_comm]

/-- **What a pass leaves that completes.** -/
theorem leaves_of_completed {w' : World} (hs : w.forge.snapshot? id = some s)
    (hcontext : w'.memory.contextOf id =
      (r.planFor id w s).nextContext (w.memory.contextOf id)) (t : Pass.Trace) :
    r.Leaves id w t w'
      (.ok (.completed ((r.planFor id w s).report id (w.memory.contextOf id)))) := by
  have hwatermark : (w'.memory.contextOf id).watermark =
      ((w.memory.contextOf id).watermark.toList ++ s.comments.map (·.moment.sequence)).max? := by
    rw [hcontext]
    exact laterWatermark_max? _ _
  refine .completed hs (by rw [hcontext]; rfl) hwatermark ?_ (by rw [hcontext]; rfl)
  intro n hn
  rw [hn] at hwatermark
  have hmem : n ∈ [n] ++ s.comments.map (·.moment.sequence) :=
    List.mem_append_left _ List.mem_cons_self
  obtain ⟨m, hm⟩ := Option.isSome_iff_exists.mp (List.isSome_max?_of_mem hmem)
  exact ⟨m, hwatermark.trans hm, (List.max?_eq_some_iff.mp hm).2 n hmem⟩

theorem exists_snapshot_of_ok (hm : w.memory.WellPlaced) {ended : PassEnd}
    (hend : (r.ended id w).1 = .ok ended) : ∃ s, w.forge.snapshot? id = some s := by
  have hreaches := r.reaches_record id hm
  rw [hend] at hreaches
  cases hs : w.forge.snapshot? id with
  | some s => exact ⟨s, rfl⟩
  | none =>
    have hchanges : Pass.changesIn (r.record id w).trace = [] := changesIn_record hm hs
    rw [Pass.changesIn_eq] at hchanges
    cases hreaches with
    | superseded hreads hlearnt h =>
      rw [h] at hchanges
      cases hchanges
    | completed hlearnt h =>
      rw [h] at hchanges
      cases hchanges

/-- **What a pass leaves.** A pass that fails leaves what is remembered of the change request, and
on the forge it has at most replied to the first of the invocations that are owed a reply; if it has
failed before its replies, the forge is as it was. A pass that completes is counted, keeps the
larger one of the watermark and of the numbers of the comments, and its readiness. -/
theorem runPass_leaves (r : Reconciler) (id : String) (halone : w.interruptions = {})
    (hm : w.memory.WellPlaced) :
    r.Leaves id w (r.record id w).trace (r.runPass id w).2 (r.runPass id w).1 := by
  cases hend : (r.ended id w).1 with
  | error e =>
    rw [runPass_eq, hend]
    exact leaves_of_failed halone hm hend
  | ok ended =>
    obtain ⟨s, hs⟩ := exists_snapshot_of_ok hm hend
    obtain ⟨hconcludes, -⟩ := r.concludes_runPass ⟨hs, trivial, halone⟩ hm
    have hrun := r.runPass_eq id w
    rw [hend] at hrun
    generalize r.runPass id w = out at hconcludes hrun ⊢
    obtain ⟨result, w'⟩ := out
    cases hconcludes with
    | failed e hplan hforge hcontext hfaults => cases ended <;> cases hrun
    | aborted htime hforge hcontext hfaults => cases ended <;> cases hrun
    | completed htime hforge hcontext hfaults => exact leaves_of_completed hs hcontext _

end Reconciler

/-- Alice's change request carries the ready label, which cannot be taken away. -/
def labelledWorld : World where
  forge := (Forge.empty "revgate-bot").insert (askedSnapshot.setLabel "ready" true)
  census := .empty
  faults := [(.setLabel, .reported false "forge.set_label" "gone")]

/-- The pass fails at the label, and its replies stand. -/
theorem runPass_leaves_labelledWorld :
    (labelledWorld.interruptions = {} ∧ labelledWorld.memory.WellPlaced) ∧
    (plainReconciler.runPass "1" labelledWorld).1.isOk = false ∧
    ((plainReconciler.runPass "1" labelledWorld).2.forge.botComments "1").length = 2 ∧
    plainReconciler.Leaves "1" labelledWorld (plainReconciler.record "1" labelledWorld).trace
      (plainReconciler.runPass "1" labelledWorld).2
      (plainReconciler.runPass "1" labelledWorld).1 :=
  ⟨⟨rfl, Memory.wellPlaced_empty⟩, by decide +kernel, by decide +kernel,
    plainReconciler.runPass_leaves "1" rfl Memory.wellPlaced_empty⟩

end ReviewQuorum
