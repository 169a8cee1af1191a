import Mathlib.Algebra.GroupWithZero.Nat
import ReviewQuorum.Proofs.Intactness

/-! # The ready label

Three places say whether a change request is ready: the readiness that a completed pass reports, the
label that it carries and the answer of the gate. A `Session` is made of passes and questions to the
gate, over any change requests of a forge and one after another. Between them, and between the
questions of a pass, others do what they like (`World.Event`), except that nobody writes the ready
label.

A `Marking` is what a forge shows of a label. Of all that happens, only a label that a pass has
written changes it (`World.marking_of_course`), and a pass writes the ready label last, if the one
that it has fetched is wrong. So after each completed pass the label says what the pass reports, and
every other pass leaves it (`Reconciler.shows_of_pass`); the gate runs passes and answers from the
one that completes. `ready_label_agrees` says so of whole sessions and counts the labels that were
written. -/

namespace ReviewQuorum

/-- Whether a milestone neither writes a label nor shows one. -/
def Milestone.hidesLabels : Milestone → Bool
  | .change _ => false
  | .labelled _ _ => false
  | _ => true

/-! ### What a forge shows of a label -/

/-- Which change requests carry a label, of those that a forge knows, and how often a label was
written. -/
structure Marking where
  carried : String → Option Bool
  writes : Nat

/-- The marking after a milestone of a pass over `id`. -/
def Marking.after (label id : String) (m : Marking) : Milestone → Marking
  | .labelled written present =>
    ⟨fun id' => if id' = id ∧ written = label then (m.carried id').map fun _ => present
      else m.carried id', m.writes + 1⟩
  | _ => m

/-- The change requests that have been fetched carry the label as it is shown then. -/
def Marking.Shows (label id : String) : Marking → List Milestone → Prop
  | _, [] => True
  | m, x :: xs => (∀ c, x = .change c → m.carried id = some (c.hasLabel label)) ∧
      (m.after label id x).Shows label id xs

theorem Marking.foldl_after_of_unlabelled {label id : String} {m : Marking} {ms : List Milestone}
    (h : ∀ written present, .labelled written present ∉ ms) :
    ms.foldl (after label id) m = m := by
  induction ms with
  | nil => rfl
  | cons x ms ih =>
    have hx : m.after label id x = m := by
      cases x with
      | labelled written present => exact absurd List.mem_cons_self (h written present)
      | _ => rfl
    rw [List.foldl_cons, hx, ih fun written present hmem => h written present (.tail _ hmem)]

/-- What a forge shows of a label. -/
def Forge.marking (f : Forge) (label : String) : Marking :=
  ⟨fun id => (f.snapshot? id).map fun s => s.change.hasLabel label, f.labelWrites⟩

theorem Snapshot.hasLabel_setLabel_of_ne (s : Snapshot) {label label' : String} (h : label ≠ label')
    (present : Bool) :
    (s.setLabel label present).change.hasLabel label' = s.change.hasLabel label' := by
  have hcontains (d : NameSet) : Dict.contains d label' = (Dict.get? d label').isSome := by
    rw [Dict.contains, Dict.get?, Option.isSome_map, List.isSome_find?]
  cases present <;>
    simp [ChangeRequest.hasLabel, setLabel, hcontains, NameSet.add, Dict.get?_erase,
      Dict.get?_insert, h]

namespace Forge

variable {f : Forge} {label id : String} {s s' : Snapshot}

theorem snapshot?_put_eq (f : Forge) (id id' : String) (s : Snapshot) :
    (f.put id s).snapshot? id' = if id = id' then some s else f.snapshot? id' :=
  Dict.get?_insert f.changes id s id'

theorem marking_put (h : f.snapshot? id = some s)
    (hlabel : s'.change.hasLabel label = s.change.hasLabel label) :
    (f.put id s').marking label = f.marking label := by
  refine congrArg (Marking.mk · f.labelWrites) (funext fun id' => ?_)
  rw [snapshot?_put_eq]
  split_ifs with hid
  · rw [← hid, h, Option.map_some, Option.map_some, hlabel]
  · rfl

theorem marking_modify {g : Snapshot → Snapshot}
    (hg : ∀ s, (g s).change.hasLabel label = s.change.hasLabel label) :
    (f.modify id g).marking label = f.marking label := by
  unfold modify
  cases h : f.snapshot? id with
  | none => rfl
  | some s => exact marking_put h (hg s)

theorem writes_marking (f : Forge) (label : String) :
    (f.marking label).writes = f.labelWrites := rfl

theorem marking_setLabel (h : f.snapshot? id = some s) (written : String) (present : Bool) :
    Forge.marking { f.put id (s.setLabel written present) with labelWrites := f.labelWrites + 1 }
        label =
      (f.marking label).after label id (.labelled written present) := by
  refine congrArg (Marking.mk · (f.labelWrites + 1)) (funext fun id' => ?_)
  have hput : (f.put id (s.setLabel written present)).snapshot? id' =
      if id = id' then some (s.setLabel written present) else f.snapshot? id' :=
    f.snapshot?_put_eq id id' _
  change Option.map _ ((f.put id (s.setLabel written present)).snapshot? id') = _
  rw [hput, marking]
  by_cases hid : id = id'
  · subst hid
    by_cases hwritten : written = label
    · subst hwritten
      simp [h, Snapshot.hasLabel_setLabel]
    · simp [h, hwritten, Snapshot.hasLabel_setLabel_of_ne s hwritten]
  · simp [hid, Ne.symm hid]

end Forge

/-! ### What happens to it -/

namespace World

/-- **What others do** who do not write the label `ready`. -/
inductive Event (ready : String) (w : World) : World → Prop
  | act (id : String) {w' : World} (h : w.Act (fun _ => True) id w') : Event ready w w'
  | label (id : String) {label : String} (present : Bool) (h : label ≠ ready) :
    Event ready w { w with forge := w.forge.modify id fun s => s.setLabel label present }
  | interrupt (i : Interruptions) : Event ready w { w with interruptions := i }

variable {ready id : String} {place ticket : Nat} {w w' : World}

theorem Event.marking (h : w.Event ready w') : w'.forge.marking ready = w.forge.marking ready := by
  cases h with
  | act id h =>
    cases h with
    | comment _ body => exact Forge.marking_modify fun s => by rw [s.change_comment]
    | review _ verdict => exact Forge.marking_modify fun s => by rw [s.change_review]
    | describe _ description => exact Forge.marking_modify fun _ => rfl
    | fail o times f => rfl
  | label id present h => exact Forge.marking_modify fun s => s.hasLabel_setLabel_of_ne h present
  | interrupt i => rfl

theorem marking_of_events (h : Relation.ReflTransGen (Event ready) w w') :
    w'.forge.marking ready = w.forge.marking ready := by
  induction h with
  | refl => rfl
  | tail _ h ih => exact h.marking.trans ih

/-- **What an exchange of a pass does to a label**, and what it shows of it. -/
structure Marked (label id : String) (w : World) (x : Exchange Query Query.Answer) (w' : World) :
    Prop where
  marking : w'.forge.marking label =
    x.milestone?.elim (w.forge.marking label) ((w.forge.marking label).after label id)
  shows : ∀ c, x.milestone? = some (.change c) →
    (w.forge.marking label).carried id = some (c.hasLabel label)

theorem onChange_ends {α : Type} (w : World) (o : Operation) (id : String)
    (go : Snapshot → World → Except Failure α × World) :
    ∃ faults, (∃ f, w.onChange o id go = (.error f, { w with faults := faults })) ∨
      ∃ s, w.forge.snapshot? id = some s ∧
        w.onChange o id go = go s { w with faults := faults } := by
  cases hs : w.forge.snapshot? id with
  | some s =>
    refine (onChange_cases hs o go).imp fun faults hcases => hcases.imp_right fun hc => ?_
    exact ⟨s, rfl, hc⟩
  | none =>
    refine (w.attempt_cases o _).imp fun faults hcases =>
      .inl (hcases.elim (fun hc => hc) fun hc => ⟨o.notFound id, hc.trans ?_⟩)
    simp only [hs]

theorem marking_interruptByRival (w : World) (id label : String) :
    (w.interruptByRival id).forge.marking label = w.forge.marking label := by
  unfold interruptByRival
  split <;> rfl

theorem marking_interruptByComment (w : World) (id label : String) :
    (w.interruptByComment id).forge.marking label = w.forge.marking label := by
  unfold interruptByComment
  split
  · rfl
  · exact Forge.marking_modify fun s => by rw [s.change_comment]

theorem forge_interruptByFailure (w : World) : w.interruptByFailure.2.forge = w.forge := by
  unfold interruptByFailure
  split <;> rfl

/-- An exchange that comes to no milestone, or to one that neither writes a label nor shows one. -/
theorem marked_of_same {label : String} {x : Exchange Query Query.Answer}
    (hx : x.milestone?.all Milestone.hidesLabels = true)
    (h : w'.forge.marking label = w.forge.marking label) : Marked label id w x w' := by
  constructor
  · cases hm : x.milestone? with
    | none => exact h
    | some m =>
      rw [hm] at hx
      cases m with
      | labelled written present => cases hx
      | _ => exact h
  · intro c hc
    rw [hc] at hx
    cases hx

/-- **What an answer does to a label.** -/
theorem marked_answer (label : String) (q : Query) (w : World) :
    Marked label id w ⟨q, (answer id place ticket q w).1⟩ (answer id place ticket q w).2 := by
  cases q with
  | changeRequest =>
    obtain ⟨faults, ⟨f, hc⟩ | ⟨s, hs, hc⟩⟩ :=
      w.onChange_ends .changeRequest id fun s w => (.ok s.change, w)
    all_goals rw [answer, hc]
    · exact marked_of_same rfl rfl
    · refine ⟨rfl, fun c hm => ?_⟩
      cases hm
      simp [Forge.marking, hs]
  | comments =>
    obtain ⟨faults, ⟨f, hc⟩ | ⟨s, hs, hc⟩⟩ :=
      w.onChange_ends .comments id fun s w => (.ok s.comments, w)
    all_goals
      rw [answer, hc]
      exact marked_of_same rfl rfl
  | reviews =>
    obtain ⟨faults, ⟨f, hc⟩ | ⟨s, hs, hc⟩⟩ :=
      (w.interruptByRival id).onChange_ends .reviews id fun s w => (.ok s.reviews, w)
    all_goals
      rw [answer, reviews, hc]
      exact marked_of_same rfl (w.marking_interruptByRival id label)
  | roleOf account =>
    obtain ⟨faults, ⟨f, hc⟩ | hc⟩ := w.attempt_cases .roleOf fun w =>
      (.ok (w.census.roleOf account), w)
    all_goals
      rw [answer, roleOf, hc]
      exact marked_of_same rfl rfl
  | isLatest => exact marked_of_same rfl rfl
  | postComment body =>
    have hbefore : ((w.interruptByComment id).interruptByFailure.2).forge.marking label =
        w.forge.marking label := by
      rw [forge_interruptByFailure, marking_interruptByComment]
    rw [answer, interruptedPost]
    split
    · rename_i f w₁ hfailure
      rw [hfailure] at hbefore
      exact marked_of_same rfl hbefore
    · rename_i w₁ hfailure
      rw [hfailure] at hbefore
      obtain ⟨faults, ⟨f, hc⟩ | ⟨s, hs, hc⟩⟩ :=
        w₁.onChange_ends .postComment id (addReply id body)
      all_goals rw [post, hc]
      · exact marked_of_same rfl hbefore
      · have hput : (w₁.forge.put id (s.commented w₁.forge.bot body)).marking label =
            w₁.forge.marking label := Forge.marking_put hs rfl
        rw [addReply_eq]
        split_ifs
        · exact marked_of_same rfl (hput.trans hbefore)
        · exact marked_of_same rfl hbefore
  | setLabel written present =>
    obtain ⟨faults, ⟨f, hc⟩ | ⟨s, hs, hc⟩⟩ := w.onChange_ends .setLabel id fun s w =>
      (.ok (), { w with forge :=
        { w.forge.put id (s.setLabel written present) with
          labelWrites := w.forge.labelWrites + 1 } })
    all_goals rw [answer, setLabel, hc]
    · exact marked_of_same rfl rfl
    · refine ⟨Forge.marking_setLabel hs written present, fun c hm => ?_⟩
      cases hm
  | pause ms => exact marked_of_same rfl rfl

/-- **What a program of a pass does to the ready label** among events: what its milestones say. -/
theorem marking_of_course {α : Type} {p : Inquiry α} {t : Pass.Trace} {a : α}
    (h : Course (answer id place ticket) (Event ready) p w t a w') :
    w'.forge.marking ready =
        (Pass.milestonesIn t).foldl (Marking.after ready id) (w.forge.marking ready) ∧
      (w.forge.marking ready).Shows ready id (Pass.milestonesIn t) := by
  induction h with
  | done a w => exact ⟨rfl, trivial⟩
  | env he _ ih => rwa [he.marking] at ih
  | @ask q next w t a w' _ ih =>
    have hx : Marked ready id w ⟨q, (answer id place ticket q w).1⟩
        (answer id place ticket q w).2 := marked_answer ready q w
    rw [hx.marking] at ih
    rw [Pass.milestonesIn_cons]
    cases hm : Exchange.milestone? ⟨q, (answer id place ticket q w).1⟩ with
    | none =>
      rw [hm] at ih
      exact ih
    | some m =>
      rw [hm] at ih
      exact ⟨ih.1, fun c hc => hx.shows c (hm.trans (congrArg some hc)), ih.2⟩

end World

/-! ### Passes -/

namespace Pass

theorem unlabelled_of_reads {t : Trace} (h : ∀ x ∈ t, x.query.isRead) (written : String)
    (present : Bool) : Milestone.labelled written present ∉ milestonesIn t := fun hmem => by
  cases isRead_of_mem_milestonesIn h _ hmem

theorem unlabelled_of_failed {settings : Settings} {context : Context} {t : Trace} {e : Failure}
    (h : Reaches settings context t (.error e)) (written : String) (present : Bool) :
    Milestone.labelled written present ∉ milestonesIn t := by
  cases h with
  | fruitless hfails hreads => exact unlabelled_of_reads hreads written present
  | broken hfails hquery hlearnt h hplan =>
    obtain ⟨sent, unsent, -, rfl, -⟩ := Plan.exists_sent hplan
    rw [h]
    simp [Facts.milestones]

end Pass

theorem Plan.labelChange_eq (settings : Settings) (context : Context) (facts : Facts) :
    (make settings context facts).labelChange =
      if facts.change.hasLabel settings.readyLabel = (make settings context facts).readiness.ready
      then none else some (make settings context facts).readiness.ready := by
  rw [← ite_not]
  simp only [make, bne_iff_ne, ne_eq]

theorem Plan.marking_after {settings : Settings} {id : String} (p : Plan) (facts : Facts)
    (m : Marking) :
    (facts.milestones ++ .ticket true :: p.milestones settings).foldl
        (Marking.after settings.readyLabel id) m =
      p.labelChange.elim m fun present =>
        m.after settings.readyLabel id (.labelled settings.readyLabel present) := by
  have hreplies : (p.replies.map fun r => Milestone.posted r.2).foldl
      (Marking.after settings.readyLabel id) m = m :=
    Marking.foldl_after_of_unlabelled (by simp)
  have hfacts : facts.milestones.foldl (Marking.after settings.readyLabel id) m = m := rfl
  rw [List.foldl_append, hfacts, List.foldl_cons]
  change (p.milestones settings).foldl (Marking.after settings.readyLabel id) m = _
  rw [Plan.milestones, List.foldl_append, hreplies]
  cases p.labelChange <;> rfl

namespace Reconciler

/-- The passes over a change request between whose questions the environment takes steps. -/
def PassesAmid (env : World → World → Prop) (r : Reconciler) (id : String) (w : World)
    (t : Pass.Trace) (result : Except Failure PassResult) (w' : World) : Prop :=
  ∃ ended w₁, Course (World.answer id (enter id w).1 (enter id w).2.1) env
      (r.program ((enter id w).2.2.memory.slotAt (enter id w).1).context) (enter id w).2.2 t ended
      w₁ ∧
    close id (enter id w).1 (enter id w).2.1 ended w₁ = (result, w')

variable {r : Reconciler} {id : String} {w w' : World} {t : Pass.Trace}
  {result : Except Failure PassResult}

theorem passesAmid_record (env : World → World → Prop) (r : Reconciler) (id : String) (w : World) :
    r.PassesAmid env id w (r.record id w).trace (r.record id w).result (r.record id w).after :=
  ⟨_, _, .ofRun _ _, rfl⟩

end Reconciler

/-- **What a pass does to the ready label**, by its result: if it completes, the label says what it
reports, and it has been written if it did not; otherwise it stays. -/
inductive Reconciler.Shows (label id : String) (w w' : World) : Except Failure PassResult → Prop
  | failed (e : Failure) (h : w'.forge.marking label = w.forge.marking label) :
    Shows label id w w' (.error e)
  | superseded (ticket : Nat) (h : w'.forge.marking label = w.forge.marking label) :
    Shows label id w w' (.ok (.superseded ticket))
  | completed {report : Report} {shown : Bool}
    (hbefore : (w.forge.marking label).carried id = some shown)
    (hchange : report.labelChange =
      if shown = report.readiness.ready then none else some report.readiness.ready)
    (hafter : w'.forge.marking label = report.labelChange.elim (w.forge.marking label)
      fun present => (w.forge.marking label).after label id (.labelled label present)) :
    Shows label id w w' (.ok (.completed report))

namespace Reconciler

variable {r : Reconciler} {id : String} {w w' : World} {t : Pass.Trace}
  {result : Except Failure PassResult}

/-- **A pass shows what it reports.** -/
theorem shows_of_pass
    (h : r.PassesAmid (World.Event r.settings.readyLabel) id w t result w') :
    Shows r.settings.readyLabel id w w' result := by
  obtain ⟨ended, w₁, hcourse, hclose⟩ := h
  obtain ⟨hmarking, hshows⟩ := World.marking_of_course hcourse
  have hforge : (enter id w).2.2.forge = w.forge := rfl
  rw [hforge] at hmarking hshows
  cases ended with
  | error e =>
    have hreaches := Pass.reaches_program hcourse
    rw [Marking.foldl_after_of_unlabelled (Pass.unlabelled_of_failed hreaches)] at hmarking
    cases hclose
    exact .failed e hmarking
  | ok ended =>
    cases Pass.reaches_program hcourse with
    | superseded hreads hlearnt h =>
      rw [Marking.foldl_after_of_unlabelled (Pass.unlabelled_of_reads hreads)] at hmarking
      cases hclose
      exact .superseded _ hmarking
    | completed hlearnt h =>
      rw [h] at hshows
      rw [h, Plan.marking_after] at hmarking
      cases hclose
      have hchange := Plan.labelChange_eq r.settings
        ((enter id w).2.2.memory.slotAt (enter id w).1).context
      exact .completed (hshows.1 _ rfl) (hchange _) hmarking

/-! ### The gate -/

/-- **The questions to the gate**, with so many attempts left: a pass that is superseded is followed
by another one, and every other pass has the answer. -/
inductive Asks (env : World → World → Prop) (r : Reconciler) (id : String) (action : GateAction) :
    Nat → World → List PassRecord → Except ReconcilerError GateAnswer → World → Prop
  | exhausted (w : World) :
    Asks env r id action 0 w [] (.error (.gateSuperseded id maxGateAttempts)) w
  | failed {left : Nat} {w w' : World} {t : Pass.Trace} {e : Failure}
    (h : r.PassesAmid env id w t (.error e) w') :
    Asks env r id action (left + 1) w [⟨w, t, .error e, w'⟩] (.error (.call e)) w'
  | superseded {left ticket : Nat} {w w' w₁ w'' : World} {t : Pass.Trace} {ps : List PassRecord}
    {answer : Except ReconcilerError GateAnswer}
    (h : r.PassesAmid env id w t (.ok (.superseded ticket)) w')
    (hevents : Relation.ReflTransGen env w' w₁)
    (hrest : Asks env r id action left w₁ ps answer w'') :
    Asks env r id action (left + 1) w (⟨w, t, .ok (.superseded ticket), w'⟩ :: ps) answer w''
  | completed {left : Nat} {w w' : World} {t : Pass.Trace} {report : Report}
    (h : r.PassesAmid env id w t (.ok (.completed report)) w') :
    Asks env r id action (left + 1) w [⟨w, t, .ok (.completed report), w'⟩]
      (.ok (.ofDecision action (.ofReadiness? (some report.readiness)))) w'

/-- The passes of a question to the gate that nobody interrupts. -/
def gateRecords (r : Reconciler) (id : String) : Nat → World → List PassRecord
  | 0, _ => []
  | left + 1, w =>
    r.record id w :: match r.runPass id w with
      | (.ok (.superseded _), w') => r.gateRecords id left w'
      | _ => []

theorem asks_checkGateWithin (env : World → World → Prop) (r : Reconciler) (id : String)
    (action : GateAction) (left : Nat) (w : World) :
    r.Asks env id action left w (r.gateRecords id left w) (r.checkGateWithin id action left w).1
      (r.checkGateWithin id action left w).2 := by
  induction left generalizing w with
  | zero => exact .exhausted w
  | succ left ih =>
    have hpass := passesAmid_record env r id w
    rw [gateRecords, checkGateWithin]
    unfold record at hpass ⊢
    generalize r.runPass id w = out at hpass ⊢
    obtain ⟨result, w'⟩ := out
    cases result with
    | error e => exact .failed hpass
    | ok result =>
      cases result with
      | completed report => exact .completed hpass
      | superseded ticket => exact .superseded hpass .refl (ih w')

end Reconciler

/-- Whether a pass over `id` has completed after which the label is not shown as before it. -/
def PassRecord.toggles (label id : String) (p : PassRecord) : Bool :=
  match p.result with
  | .ok (.completed _) =>
    (p.before.forge.marking label).carried id != (p.after.forge.marking label).carried id
  | _ => false

namespace Reconciler

variable {r : Reconciler} {label id : String} {w w' : World}

theorem Shows.after {report : Report} (h : Shows label id w w' (.ok (.completed report))) :
    (w'.forge.marking label).carried id = some report.readiness.ready ∧
      (report.labelChange =
        if (w.forge.marking label).carried id = some report.readiness.ready then none
        else some report.readiness.ready) ∧
      w'.forge.labelWrites = w.forge.labelWrites + report.labelChange.toList.length := by
  cases h with
  | @completed _ shown hbefore hchange hafter =>
    rw [hchange] at hafter ⊢
    rw [← Forge.writes_marking w'.forge label, hafter, hbefore]
    by_cases hshown : shown = report.readiness.ready
    · rw [if_pos hshown]
      simp [hbefore, hshown, Forge.writes_marking]
    · rw [if_neg hshown]
      simp [Marking.after, hbefore, hshown, Forge.writes_marking]

theorem Shows.same {result : Except Failure PassResult} (h : Shows label id w w' result)
    (hresult : ∀ report, result ≠ .ok (.completed report)) :
    w'.forge.marking label = w.forge.marking label := by
  cases h with
  | failed e h => exact h
  | superseded ticket h => exact h
  | completed => exact absurd rfl (hresult _)

theorem Shows.labelWrites {t : Pass.Trace} {result : Except Failure PassResult}
    (h : Shows label id w w' result) :
    w'.forge.labelWrites = w.forge.labelWrites +
      ([⟨w, t, result, w'⟩] : List PassRecord).countP (·.toggles label id) := by
  cases h with
  | failed e h => exact congrArg Marking.writes h
  | superseded ticket h => exact congrArg Marking.writes h
  | @completed report shown hbefore hchange hafter =>
    obtain ⟨hshown, hwritten, hcount⟩ := Shows.after (.completed hbefore hchange hafter)
    rw [hcount, hwritten, List.countP_singleton, PassRecord.toggles, hshown]
    by_cases hsame : (w.forge.marking label).carried id = some report.readiness.ready
    · simp [hsame]
    · simp [hsame]

/-- **What the gate answers is what the label shows**, and its passes show what they report. -/
theorem Asks.shows {action : GateAction} {left : Nat} {ps : List PassRecord}
    {answer : Except ReconcilerError GateAnswer}
    (h : r.Asks (World.Event r.settings.readyLabel) id action left w ps answer w') :
    (∀ p ∈ ps, Shows r.settings.readyLabel id p.before p.after p.result) ∧
      (∀ a, answer = .ok a →
        (a = .allowed ↔ (w'.forge.marking r.settings.readyLabel).carried id = some true)) ∧
      w'.forge.labelWrites =
        w.forge.labelWrites + ps.countP (·.toggles r.settings.readyLabel id) := by
  induction h with
  | exhausted w => exact ⟨by simp, nofun, rfl⟩
  | failed h =>
    have hshows := shows_of_pass h
    exact ⟨List.forall_mem_singleton.mpr hshows, nofun, hshows.labelWrites⟩
  | superseded h hevents _ ih =>
    obtain ⟨hps, hanswer, hcount⟩ := ih
    have hshows := shows_of_pass h
    refine ⟨List.forall_mem_cons.mpr ⟨hshows, hps⟩, hanswer, ?_⟩
    rw [hcount, List.countP_cons_of_neg (by simp [PassRecord.toggles])]
    cases hshows with
    | superseded ticket hsame =>
      have hmarking := (World.marking_of_events hevents).trans hsame
      rw [← Forge.writes_marking, hmarking, Forge.writes_marking]
  | @completed left w w' t report h =>
    have hshows := shows_of_pass h
    refine ⟨List.forall_mem_singleton.mpr hshows, fun a ha => ?_, hshows.labelWrites⟩
    cases ha
    rw [hshows.after.1, GateDecision.ofReadiness?]
    cases report.readiness.ready <;> simp [GateAnswer.ofDecision]

end Reconciler

/-! ### Sessions -/

/-- A pass over a change request, or a question to the gate with its passes and its answer, and the
world in which the call ends. -/
structure Call where
  id : String
  passes : List PassRecord
  answer? : Option (Except ReconcilerError GateAnswer)
  after : World

/-- **The sessions of a reconciler**: passes and questions to the gate, over any change requests and
one after another. Others act between them and during them, and the reconciler may be replaced by a
fresh one between them. -/
inductive Session (r : Reconciler) (w₀ : World) : List Call → World → Prop
  | start : Session r w₀ [] w₀
  | event {calls : List Call} {w w' : World} (h : Session r w₀ calls w)
    (he : w.Event r.settings.readyLabel w') : Session r w₀ calls w'
  | restart {calls : List Call} {w : World} (h : Session r w₀ calls w) :
    Session r w₀ calls w.restart
  | pass {calls : List Call} {id : String} {w w' : World} {t : Pass.Trace}
    {result : Except Failure PassResult} (h : Session r w₀ calls w)
    (hp : r.PassesAmid (World.Event r.settings.readyLabel) id w t result w') :
    Session r w₀ (calls ++ [⟨id, [⟨w, t, result, w'⟩], none, w'⟩]) w'
  | gate {calls : List Call} {id : String} {action : GateAction} {w w' : World}
    {ps : List PassRecord} {answer : Except ReconcilerError GateAnswer} (h : Session r w₀ calls w)
    (hg : r.Asks (World.Event r.settings.readyLabel) id action Reconciler.maxGateAttempts w ps
      answer w') :
    Session r w₀ (calls ++ [⟨id, ps, some answer, w'⟩]) w'

/-- How many of its passes have completed and toggled the label. -/
def Call.toggles (label : String) (c : Call) : Nat := c.passes.countP (·.toggles label c.id)

/-- What holds of a call: its passes show what they report, and so does the answer of the gate. -/
structure Call.Shows (label : String) (c : Call) : Prop where
  passes : ∀ p ∈ c.passes, Reconciler.Shows label c.id p.before p.after p.result
  answer : ∀ a, c.answer? = some (.ok a) →
    (a = .allowed ↔ (c.after.forge.marking label).carried c.id = some true)

namespace Session

variable {r : Reconciler} {w₀ w : World} {calls : List Call}

/-- **What holds of all calls of a session**, and how often they have written the label. -/
theorem shows (h : Session r w₀ calls w) :
    (∀ c ∈ calls, c.Shows r.settings.readyLabel) ∧
      w.forge.labelWrites =
        w₀.forge.labelWrites + (calls.map (Call.toggles r.settings.readyLabel)).sum := by
  -- One more call behind the others.
  have hcall {calls : List Call} {w w' : World} {c : Call}
      (ih : (∀ c ∈ calls, c.Shows r.settings.readyLabel) ∧ w.forge.labelWrites =
        w₀.forge.labelWrites + (calls.map (Call.toggles r.settings.readyLabel)).sum)
      (hc : c.Shows r.settings.readyLabel)
      (hwrites : w'.forge.labelWrites = w.forge.labelWrites + c.toggles r.settings.readyLabel) :
      (∀ d ∈ calls ++ [c], d.Shows r.settings.readyLabel) ∧ w'.forge.labelWrites =
        w₀.forge.labelWrites +
          ((calls ++ [c]).map (Call.toggles r.settings.readyLabel)).sum := by
    refine ⟨List.forall_mem_append.mpr ⟨ih.1, List.forall_mem_singleton.mpr hc⟩, ?_⟩
    rw [hwrites, ih.2, List.map_append, List.sum_append, List.map_singleton, List.sum_singleton,
      Nat.add_assoc]
  induction h with
  | start => exact ⟨by simp, rfl⟩
  | event _ he ih => exact ⟨ih.1, (congrArg Marking.writes he.marking).trans ih.2⟩
  | restart _ ih => exact ih
  | @pass calls id w w' t result _ hp ih =>
    have hshows := Reconciler.shows_of_pass hp
    have hpasses : ∀ p ∈ ([⟨w, t, result, w'⟩] : List PassRecord),
        Reconciler.Shows r.settings.readyLabel id p.before p.after p.result :=
      List.forall_mem_singleton.mpr hshows
    have hc : Call.Shows r.settings.readyLabel ⟨id, [⟨w, t, result, w'⟩], none, w'⟩ :=
      ⟨hpasses, nofun⟩
    exact hcall ih hc hshows.labelWrites
  | @gate calls id action w w' ps answer _ hg ih =>
    obtain ⟨hpasses, hanswer, hwrites⟩ := hg.shows
    have hc : Call.Shows r.settings.readyLabel ⟨id, ps, some answer, w'⟩ :=
      ⟨hpasses, fun a ha => hanswer a (Option.some.inj ha)⟩
    exact hcall ih hc hwrites

theorem runPass (h : Session r w₀ calls w) (id : String) :
    Session r w₀ (calls ++ [⟨id, [r.record id w], none, (r.runPass id w).2⟩]) (r.runPass id w).2 :=
  h.pass (Reconciler.passesAmid_record _ r id w)

theorem checkGate (h : Session r w₀ calls w) (id : String) (action : GateAction) :
    Session r w₀ (calls ++ [⟨id, r.gateRecords id Reconciler.maxGateAttempts w,
        some (r.checkGate id action w).1, (r.checkGate id action w).2⟩])
      (r.checkGate id action w).2 :=
  h.gate (Reconciler.asks_checkGateWithin _ r id action _ w)

end Session

/-- **The ready label, the readiness and the gate agree.** After each completed pass of a session
the label says whether the change request is ready by the report, and the pass has written it if it
said otherwise before; every other pass leaves the label. The gate opens if and only if the label is
shown afterwards. Labels are written as often as completed passes have toggled the ready label. -/
theorem ready_label_agrees {r : Reconciler} {w₀ w : World} {calls : List Call}
    (h : Session r w₀ calls w) :
    let shown (w : World) := (w.forge.marking r.settings.readyLabel).carried
    (∀ c ∈ calls, ∀ p ∈ c.passes,
      (∀ report, p.result = .ok (.completed report) →
        shown p.after c.id = some report.readiness.ready ∧
        (report.labelChange =
          if shown p.before c.id = some report.readiness.ready then none
          else some report.readiness.ready) ∧
        p.after.forge.labelWrites =
          p.before.forge.labelWrites + report.labelChange.toList.length) ∧
      ((∀ report, p.result ≠ .ok (.completed report)) →
        shown p.after = shown p.before ∧
        p.after.forge.labelWrites = p.before.forge.labelWrites)) ∧
    (∀ c ∈ calls, ∀ a, c.answer? = some (.ok a) →
      (a = .allowed ↔ shown c.after c.id = some true)) ∧
    w.forge.labelWrites =
      w₀.forge.labelWrites + (calls.map (Call.toggles r.settings.readyLabel)).sum := by
  intro shown
  obtain ⟨hcalls, hwrites⟩ := h.shows
  refine ⟨fun c hc p hp => ⟨fun report hresult => ?_, fun hresult => ?_⟩,
    fun c hc => (hcalls c hc).answer, hwrites⟩
  · have hshows := (hcalls c hc).passes p hp
    rw [hresult] at hshows
    exact hshows.after
  · have hsame := ((hcalls c hc).passes p hp).same hresult
    exact ⟨congrArg Marking.carried hsame, congrArg Marking.writes hsame⟩

/-- A world with alice's change request, which bob may approve. -/
def awaitingWorld : World := .start quietForge (RoleTable.empty.insert "bob" .reviewers)

/-- The world after a first pass, bob's approval and the failure of a label to come. -/
def approvedLate : World :=
  let w := (plainReconciler.runPass "1" awaitingWorld).2
  { w with forge := w.forge.modify "1" fun s => s.review "bob" .approved }.fail .setLabel 1
    (.reported false "forge.set_label" "gone")

/-- The second pass cannot write the label, and then the gate is asked. -/
def lateCalls : List Call :=
  let w := (plainReconciler.runPass "1" approvedLate).2
  [⟨"1", [plainReconciler.record "1" awaitingWorld], none,
      (plainReconciler.runPass "1" awaitingWorld).2⟩,
    ⟨"1", [plainReconciler.record "1" approvedLate], none, w⟩,
    ⟨"1", plainReconciler.gateRecords "1" Reconciler.maxGateAttempts w,
      some (plainReconciler.checkGate "1" .integrate w).1,
      (plainReconciler.checkGate "1" .integrate w).2⟩]

/-- The gate opens, and the label has been written once. -/
theorem ready_label_agrees_lateCalls :
    let w := (plainReconciler.runPass "1" approvedLate).2
    let answer := plainReconciler.checkGate "1" .integrate w
    Session plainReconciler awaitingWorld lateCalls answer.2 ∧
    lateCalls.map (Call.toggles "ready") = [0, 0, 1] ∧
    (w.forge.marking "ready").carried "1" = some false ∧ answer.1 = .ok .allowed ∧
    (answer.2.forge.marking "ready").carried "1" = some true ∧ answer.2.forge.labelWrites = 1 := by
  intro w answer
  have hfirst : Session plainReconciler awaitingWorld _ _ := Session.start.runPass "1"
  have happroved : Session plainReconciler awaitingWorld _ approvedLate :=
    (hfirst.event (.act "1" (.review trivial .approved))).event (.act "1" (.fail .setLabel 1 _))
  have hsession : Session plainReconciler awaitingWorld lateCalls answer.2 :=
    (happroved.runPass "1").checkGate "1" .integrate
  have htoggles : lateCalls.map (Call.toggles "ready") = [0, 0, 1] := by decide +kernel
  have hallowed : answer.1 = .ok .allowed := by decide +kernel
  obtain ⟨-, hanswer, hwrites⟩ := ready_label_agrees hsession
  have hlast : (⟨"1", plainReconciler.gateRecords "1" Reconciler.maxGateAttempts w,
      some answer.1, answer.2⟩ : Call) ∈ lateCalls := .tail _ (.tail _ (.head _))
  have hshown := (hanswer _ hlast .allowed (congrArg some hallowed)).mp rfl
  exact ⟨hsession, htoggles, by decide +kernel, hallowed, hshown,
    hwrites.trans (congrArg (fun counts => 0 + counts.sum) htoggles)⟩

end ReviewQuorum
