import ReviewQuorum.Proofs.Resumption

/-! # Failures that pass by

A call is attempted a number of times, and a transient failure costs one attempt. If of each
operation only transient failures are queued, and at most as many as a call has retries
(`World.Outlasted`), then every call comes to what it comes to in a world where nothing fails, and
what it leaves queued is outlasted by the calls after it (`Question.steady_call`).

A part of a pass is `Steady` if it comes to the same in both worlds and leaves them alike but for
the queued failures and the time. Calls are steady, and so is what is put together from steady
parts: in the end a whole pass (`steady_program`). So who runs a pass cannot tell that calls have
failed (`runPass_outlasts`). -/

namespace ReviewQuorum

/-! ### Queues of failures -/

namespace World

/-- The failures that are queued for an operation. -/
def queued (w : World) (o : Operation) : List Failure :=
  (w.faults.filter fun f => f.1 == o).map (·.2)

/-- **Faults that retries outlast**: of each operation transient failures only, and at most as many
as a call has retries. -/
def Outlasted (w : World) (retry : Retry) : Prop :=
  ∀ o, (∀ f ∈ w.queued o, f.transient = true) ∧ (w.queued o).length ≤ max retry.maxAttempts 1 - 1

variable {w : World} {o : Operation} {α : Type}

theorem queued_of_faultless (h : w.faults = []) (o : Operation) : w.queued o = [] := by
  rw [queued, h]
  rfl

theorem attempt_of_unqueued (h : w.queued o = []) (go : World → Except Failure α × World) :
    w.attempt o go = go w := by
  have hnone : w.faults.find? (fun f => f.1 == o) = none := by
    rw [← List.head?_filter, List.map_eq_nil_iff.mp h]
    rfl
  rw [attempt, takeFault, hnone]

theorem attempt_of_queued {f : Failure} {fs : List Failure} (h : w.queued o = f :: fs)
    (go : World → Except Failure α × World) :
    ∃ faults, w.attempt o go = (.error f, { w with faults := faults }) ∧
      ∀ o', ({ w with faults := faults }).queued o' = if o' = o then fs else w.queued o' := by
  obtain ⟨e, es, hfilter, rfl, rfl⟩ := List.map_eq_cons_iff.mp h
  obtain ⟨before, behind, hsplit, hbefore, he, rfl⟩ := List.filter_eq_cons_iff.mp hfilter
  have hfind : w.faults.find? (fun f => f.1 == o) = some e := by
    rw [← List.head?_filter, hfilter]
    rfl
  refine ⟨w.faults.eraseP fun f => f.1 == o, by rw [attempt, takeFault, hfind], fun o' => ?_⟩
  have heo : e.1 = o := by simpa using he
  have herase : w.faults.eraseP (fun f => f.1 == o) = before ++ behind := by
    rw [hsplit, List.eraseP_append_right _ hbefore]
    exact congrArg (before ++ ·) (List.eraseP_cons_of_pos he)
  rw [queued, herase, List.filter_append]
  split_ifs with ho
  · rw [ho, List.filter_eq_nil_iff.mpr hbefore, List.nil_append]
  · have hother : ¬(e.1 == o') = true := by simpa [heo] using Ne.symm ho
    have hbehind : (e :: behind).filter (fun f => f.1 == o') = behind.filter fun f => f.1 == o' :=
      List.filter_cons_of_neg hother
    rw [queued, hsplit, List.filter_append, hbehind]

/-- Worlds that are alike but for the queued failures and the time; nothing fails in the second one,
and retries outlast what is queued in the first. -/
structure Weathers (retry : Retry) (w calm : World) : Prop where
  forge : w.forge = calm.forge
  census : w.census = calm.census
  memory : w.memory = calm.memory
  alone : w.interruptions = {} ∧ calm.interruptions = {}
  faultless : calm.faults = []
  outlasted : w.Outlasted retry

namespace Weathers

variable {retry : Retry} {calm : World}

theorem of_fewer (h : w.Weathers retry calm) {f : Failure} {fs : List Failure}
    {faults : List (Operation × Failure)} (hqueue : w.queued o = f :: fs)
    (hfaults : ∀ o', ({ w with faults := faults }).queued o' =
      if o' = o then fs else w.queued o') (time : Nat) :
    ({ w with faults := faults, clock := time }).Weathers retry calm := by
  refine ⟨h.forge, h.census, h.memory, h.alone, h.faultless, fun o' => ?_⟩
  have hqueued : ({ w with faults := faults, clock := time }).queued o' =
      if o' = o then fs else w.queued o' := hfaults o'
  rw [hqueued]
  split_ifs
  · obtain ⟨htransient, hlength⟩ := h.outlasted o
    rw [hqueue, List.length_cons] at hlength
    rw [hqueue] at htransient
    exact ⟨fun g hg => htransient g (List.mem_cons_of_mem _ hg), by omega⟩
  · exact h.outlasted o'

end Weathers

end World

/-! ### Calls -/

namespace Pass

/-- A part of a pass over `id` that queued failures do not touch, if retries outlast them. -/
def Steady (retry : Retry) (id : String) (place ticket : Nat) {α : Type} (p : Inquiry α) : Prop :=
  ∀ w calm : World, w.Weathers retry calm →
    (p.run (World.answer id place ticket) w).1 = (p.run (World.answer id place ticket) calm).1 ∧
      (p.run (World.answer id place ticket) w).2.Weathers retry
        (p.run (World.answer id place ticket) calm).2

/-- A question about an operation: what is queued for it comes first. What is done otherwise depends
on no faults and fails for good if it fails. -/
structure Question (retry : Retry) (id : String) (place ticket : Nat) (o : Operation) {α : Type}
    (q : Inquiry (Except Failure α)) (go : World → Except Failure α × World) : Prop where
  asks : ∀ w : World, w.interruptions = {} →
    q.run (World.answer id place ticket) w = w.attempt o go
  alike : ∀ {w calm : World}, w.Weathers retry calm →
    (go w).1 = (go calm).1 ∧ (go w).2.Weathers retry (go calm).2
  final : ∀ w e, (go w).1 = .error e → e.transient = false

section Calls

variable {retry : Retry} {id : String} {place ticket : Nat} {o : Operation} {α : Type}
  {q : Inquiry (Except Failure α)} {go : World → Except Failure α × World} {w calm : World}

theorem Question.run_of_unqueued (hq : Question retry id place ticket o q go)
    (halone : w.interruptions = {}) (h : w.queued o = []) (left made : Nat) :
    (retry.attempt (fun ms => inquire (.pause ms)) q left made).run
      (World.answer id place ticket) w = go w := by
  have hasked : q.run (World.answer id place ticket) w = go w := by
    rw [hq.asks w halone, World.attempt_of_unqueued h]
  cases left with
  | zero => exact hasked
  | succ left =>
    rw [Retry.attempt, Program.run_bind, hasked]
    cases hgo : (go w).1 with
    | ok v => exact Prod.ext hgo.symm rfl
    | error e =>
      have hfinal : e.transient = false := hq.final w e hgo
      simp only [hfinal, Bool.false_eq_true, if_false, Program.run_pure]
      exact Prod.ext hgo.symm rfl

/-- A call with as many retries left as failures are queued for its operation comes to what it comes
to without them. -/
theorem Question.weathers_attempt (hq : Question retry id place ticket o q go)
    (h : w.Weathers retry calm) {left : Nat} (hleft : (w.queued o).length ≤ left) (made : Nat) :
    ((retry.attempt (fun ms => inquire (.pause ms)) q left made).run
        (World.answer id place ticket) w).1 = (go calm).1 ∧
      ((retry.attempt (fun ms => inquire (.pause ms)) q left made).run
        (World.answer id place ticket) w).2.Weathers retry (go calm).2 := by
  induction left generalizing w made with
  | zero =>
    rw [hq.run_of_unqueued h.alone.1 (List.length_eq_zero_iff.mp (Nat.le_zero.mp hleft))]
    exact hq.alike h
  | succ left ih =>
    cases hqueue : w.queued o with
    | nil =>
      rw [hq.run_of_unqueued h.alone.1 hqueue]
      exact hq.alike h
    | cons f fs =>
      -- the failure is transient and takes one retry, so both numbers go down by one
      obtain ⟨faults, hfails, hfaults⟩ := World.attempt_of_queued hqueue go
      have hasked : q.run (World.answer id place ticket) w =
          (.error f, { w with faults := faults }) := by rw [hq.asks w h.alone.1, hfails]
      have htransient : f.transient = true :=
        (h.outlasted o).1 f (hqueue ▸ List.mem_cons_self)
      rw [Retry.attempt, Program.run_bind, hasked]
      simp only [htransient, if_true, Program.run_bind]
      refine ih (h.of_fewer hqueue hfaults _) ?_ (made + 1)
      have hfewer : (World.queued { w with faults := faults } o).length = fs.length := by
        rw [hfaults o, if_pos rfl]
      rw [hqueue, List.length_cons] at hleft
      change (World.queued { w with faults := faults } o).length ≤ left
      omega

/-- **A call is steady.** -/
theorem Question.steady_call (hq : Question retry id place ticket o q go) :
    Steady retry id place ticket (call retry q).run := by
  intro w calm h
  have hcalm : (call retry q).run.run (World.answer id place ticket) calm = go calm :=
    hq.run_of_unqueued h.alone.2 (World.queued_of_faultless h.faultless o) _ _
  have hleft : (w.queued o).length ≤ retry.maxAttempts - 1 := by
    have := (h.outlasted o).2
    omega
  rw [hcalm]
  exact hq.weathers_attempt h hleft 0

end Calls

/-! ### The questions of a pass -/

section Questions

variable (retry : Retry) (id : String) (place ticket : Nat)

theorem question_onChange {α : Type} {q : Inquiry (Except Failure α)} {o : Operation}
    {go : Snapshot → World → Except Failure α × World}
    (hasks : ∀ w : World, w.interruptions = {} →
      q.run (World.answer id place ticket) w = w.onChange o id go)
    (halike : ∀ (s : Snapshot) {w calm : World}, w.Weathers retry calm →
      (go s w).1 = (go s calm).1 ∧ (go s w).2.Weathers retry (go s calm).2)
    (hfinal : ∀ s w e, (go s w).1 = .error e → e.transient = false) :
    Question retry id place ticket o q fun w =>
      match w.forge.snapshot? id with
      | none => (.error (o.notFound id), w)
      | some s => go s w where
  asks := hasks
  alike {w calm} h := by
    simp only [h.forge]
    cases calm.forge.snapshot? id with
    | none => exact ⟨rfl, h⟩
    | some s => exact halike s h
  final w e he := by
    cases hs : w.forge.snapshot? id with
    | none =>
      rw [hs] at he
      exact Except.error.inj he ▸ rfl
    | some s =>
      rw [hs] at he
      exact hfinal s w e he

theorem steady_changeRequest :
    Steady retry id place ticket (call retry (inquire .changeRequest)).run :=
  (question_onChange retry id place ticket (fun _ _ => rfl) (fun _ _ _ h => ⟨rfl, h⟩)
    fun _ _ _ he => by cases he).steady_call

theorem steady_comments :
    Steady retry id place ticket (call retry (inquire .comments)).run :=
  (question_onChange retry id place ticket (fun _ _ => rfl) (fun _ _ _ h => ⟨rfl, h⟩)
    fun _ _ _ he => by cases he).steady_call

theorem steady_reviews :
    Steady retry id place ticket (call retry (inquire .reviews)).run := by
  have hasks (w : World) (halone : w.interruptions = {}) :
      (inquire .reviews).run (World.answer id place ticket) w =
        w.onChange .reviews id fun s w => (.ok s.reviews, w) := by
    change (w.interruptByRival id).reviews id = _
    rw [World.interruptByRival, halone]
    rfl
  exact (question_onChange retry id place ticket hasks (fun _ _ _ h => ⟨rfl, h⟩)
    fun _ _ _ he => by cases he).steady_call

theorem steady_roleOf (account : Account) :
    Steady retry id place ticket (call retry (inquire (.roleOf account))).run := by
  have hq : Question retry id place ticket .roleOf (inquire (.roleOf account))
      fun w => (.ok (w.census.roleOf account), w) :=
    ⟨fun _ _ => rfl, fun h => ⟨by rw [h.census], h⟩, fun _ _ he => by cases he⟩
  exact hq.steady_call

theorem steady_postComment (body : String) :
    Steady retry id place ticket (call retry (inquire (.postComment body))).run := by
  have hasks (w : World) (halone : w.interruptions = {}) :
      (inquire (.postComment body)).run (World.answer id place ticket) w =
        w.onChange .postComment id (World.addReply id body) := by
    change w.interruptedPost id body = _
    rw [World.interruptedPost, World.interruptByComment, halone]
    simp only [World.interruptByFailure, halone]
    rfl
  -- where no second is left, the pass aborts in both worlds
  refine (question_onChange retry id place ticket hasks (fun s w calm h => ?_)
    fun s w e he => ?_).steady_call
  · simp only [World.addReply_eq]
    split_ifs
    · exact ⟨rfl, by rw [h.forge], h.census, h.memory, h.alone, h.faultless, h.outlasted⟩
    · exact ⟨rfl, h⟩
  · rw [World.addReply_eq] at he
    split_ifs at he
    cases he
    rfl

theorem steady_setLabel (label : String) (present : Bool) :
    Steady retry id place ticket (call retry (inquire (.setLabel label present))).run := by
  refine (question_onChange retry id place ticket (fun _ _ => rfl) (fun s w calm h => ⟨rfl, ?_⟩)
    fun _ _ _ he => by cases he).steady_call
  exact ⟨by rw [h.forge], h.census, h.memory, h.alone, h.faultless, h.outlasted⟩

end Questions

/-! ### Parts one after another -/

section Parts

variable {retry : Retry} {id : String} {place ticket : Nat} {α β : Type}

theorem steady_pure (a : α) : Steady retry id place ticket (pure a : Inquiry α) :=
  fun _ _ h => ⟨rfl, h⟩

theorem Steady.bind {p : Inquiry α} {f : α → Inquiry β} (hp : Steady retry id place ticket p)
    (hf : ∀ a, Steady retry id place ticket (f a)) :
    Steady retry id place ticket (p >>= f) := by
  intro w calm h
  obtain ⟨hvalue, hworld⟩ := hp w calm h
  rw [Program.run_bind, Program.run_bind, hvalue]
  exact hf _ _ _ hworld

theorem Steady.attempt_bind {x : Attempt α} {f : α → Attempt β}
    (hx : Steady retry id place ticket x.run) (hf : ∀ a, Steady retry id place ticket (f a).run) :
    Steady retry id place ticket (x >>= f).run := by
  rw [ExceptT.run_bind]
  refine hx.bind fun r => ?_
  cases r with
  | ok a => exact hf a
  | error e => exact steady_pure _

theorem steady_isLatest :
    Steady retry id place ticket (liftM (inquire .isLatest : Inquiry Bool) : Attempt Bool).run := by
  have hasked : Steady retry id place ticket (inquire .isLatest : Inquiry Bool) := by
    intro w calm h
    refine ⟨?_, h⟩
    change ((w.memory.slotAt place).latestTicket == ticket) = _
    rw [h.memory]
    rfl
  exact hasked.bind fun latest => steady_pure _

theorem steady_resolveRole (table : RoleTable) (account : Account) :
    Steady retry id place ticket (resolveRole retry table account).run := by
  refine (steady_roleOf retry id place ticket account).attempt_bind fun role => ?_
  cases role with
  | none => exact steady_pure _
  | some role => exact steady_pure _

theorem steady_resolveRoles (accounts : List Account) (table : RoleTable) :
    Steady retry id place ticket (accounts.foldlM (resolveRole retry) table).run := by
  induction accounts generalizing table with
  | nil => exact steady_pure _
  | cons account accounts ih =>
    rw [List.foldlM_cons]
    exact (steady_resolveRole table account).attempt_bind ih

/-- **Gathering the facts is steady.** -/
theorem steady_gather (settings : Settings) :
    Steady retry id place ticket (gather settings retry).run := by
  refine (steady_changeRequest retry id place ticket).attempt_bind fun change => ?_
  refine (steady_comments retry id place ticket).attempt_bind fun comments => ?_
  refine (steady_reviews retry id place ticket).attempt_bind fun reviews => ?_
  refine (steady_resolveRoles _ _).attempt_bind fun roles => ?_
  exact steady_pure _

theorem steady_postAll (replies : List (String × String)) :
    Steady retry id place ticket (postAll retry replies).run := by
  induction replies with
  | nil => exact steady_pure _
  | cons reply replies ih =>
    exact (steady_postComment retry id place ticket reply.2).attempt_bind fun _ => ih

theorem steady_showReadiness (settings : Settings) (change : Option Bool) :
    Steady retry id place ticket (showReadiness settings retry change).run := by
  cases change with
  | none => exact steady_pure _
  | some present => exact steady_setLabel retry id place ticket settings.readyLabel present

/-- **A pass is steady.** -/
theorem steady_program (settings : Settings) (context : Context) :
    Steady retry id place ticket (program settings retry context).run := by
  refine (steady_gather settings).attempt_bind fun facts => ?_
  refine steady_isLatest.attempt_bind fun latest => ?_
  cases latest with
  | false => exact steady_pure _
  | true =>
    have hcarryOut (plan : Plan) :
        Steady retry id place ticket (carryOut settings retry plan).run :=
      (steady_postAll plan.replies).attempt_bind fun _ =>
        steady_showReadiness settings plan.labelChange
    exact (hcarryOut _).attempt_bind fun _ => steady_pure _

end Parts

end Pass

/-! ### Passes -/

theorem World.Weathers.close {retry : Retry} {w calm : World} (h : w.Weathers retry calm)
    (id : String) (place ticket : Nat) (result : Except Failure PassEnd) :
    (Reconciler.close id place ticket result w).1 =
        (Reconciler.close id place ticket result calm).1 ∧
      (Reconciler.close id place ticket result w).2.Weathers retry
        (Reconciler.close id place ticket result calm).2 := by
  match result with
  | .error e => exact ⟨rfl, h⟩
  | .ok .superseded => exact ⟨rfl, h⟩
  | .ok (.completed plan) =>
    simp only [Reconciler.close, h.memory, true_and]
    exact ⟨h.forge, h.census, rfl, h.alone, h.faultless, h.outlasted⟩

/-- **Who runs a pass cannot tell that calls have failed**, if of each operation only transient
failures are queued, and at most as many as a call has retries: the pass ends as where nothing
fails, with the same report, and leaves the same forge and the same memory. If the forge knows the
change request and there is time for the replies, it completes. -/
theorem runPass_outlasts (r : Reconciler) (id : String) {w : World} (halone : w.interruptions = {})
    (hfaults : w.Outlasted r.retry) :
    let calm := { w with faults := [] }
    (r.runPass id w).1 = (r.runPass id calm).1 ∧
      (r.runPass id w).2.forge = (r.runPass id calm).2.forge ∧
      (r.runPass id w).2.memory = (r.runPass id calm).2.memory ∧
      ∀ s, w.forge.snapshot? id = some s → w.memory.WellPlaced → r.HasTime id w s →
        ∃ report, (r.runPass id w).1 = .ok (.completed report) := by
  intro calm
  have hentered : (Reconciler.enter id w).2.2.Weathers r.retry (Reconciler.enter id calm).2.2 :=
    ⟨rfl, rfl, rfl, ⟨halone, halone⟩, rfl, hfaults⟩
  obtain ⟨hend, hworld⟩ : (r.ended id w).1 = (r.ended id calm).1 ∧
      (r.ended id w).2.Weathers r.retry (r.ended id calm).2 :=
    Pass.steady_program r.settings _ _ _ hentered
  have hsame : (r.runPass id w).1 = (r.runPass id calm).1 ∧
      (r.runPass id w).2.Weathers r.retry (r.runPass id calm).2 := by
    rw [r.runPass_eq id w, r.runPass_eq id calm, hend]
    exact hworld.close id _ _ _
  refine ⟨hsame.1, hsame.2.forge, hsame.2.memory, fun s hs hplaced htime => ?_⟩
  have hsettles : r.Settles id calm s := r.settles_runPass ⟨hs, trivial, halone⟩ hplaced rfl
  exact ⟨_, hsame.1.trans (hsettles.result.trans (if_pos htime))⟩

/-- Two posts fail, the label twice, and a role once. -/
def passingFaults : List (Operation × Failure) :=
  let lost : Failure := .reported true "forge" "connection lost"
  [(.postComment, lost), (.setLabel, lost), (.roleOf, lost), (.postComment, lost),
    (.setLabel, lost)]

/-- The pass replies to both commands as if nothing had failed. -/
theorem runPass_outlasts_askedWorld :
    ((askedWorld passingFaults).interruptions = {} ∧
      (askedWorld passingFaults).Outlasted plainReconciler.retry ∧
      (askedWorld passingFaults).memory.WellPlaced) ∧
    (∃ report, (plainReconciler.runPass "1" (askedWorld passingFaults)).1 =
      .ok (.completed report)) ∧
    (plainReconciler.runPass "1" (askedWorld passingFaults)).2.forge =
      (plainReconciler.runPass "1" (askedWorld [])).2.forge := by
  have hfaults : (askedWorld passingFaults).Outlasted plainReconciler.retry := by
    intro o
    cases o <;> decide
  obtain ⟨-, hforge, -, hcompletes⟩ := runPass_outlasts plainReconciler "1" rfl hfaults
  exact ⟨⟨rfl, hfaults, Memory.wellPlaced_empty⟩,
    hcompletes askedSnapshot (snapshot?_askedWorld passingFaults) Memory.wellPlaced_empty
      (Reconciler.hasTime_of_lt (by decide)), hforge⟩

end ReviewQuorum
