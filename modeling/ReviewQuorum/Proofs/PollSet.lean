import ReviewQuorum.Proofs.Intactness
import ReviewQuorum.Proofs.Since
import ReviewQuorum.Worker

/-! # The change requests that are polled

A tick runs a pass over each change request that is tracked. The same map holds the slots of change
requests, and whoever looks one up opens it: passes, the gate and a look at the context as well as
`Memory.track`. So a change request is tracked iff its slot has been looked up since it was last
untracked (`mem_trackedIds_iff`), whether anybody has asked to track it or not.

One deed opens the slot of the change request that it is about, or gives it up
(`Deed.mem_trackedIds`). A pass looks no other slot up, and in a tick every pass is over a change
request that is tracked (`Round.Listed`), so that a tick leaves the tracked ones as they are. -/

namespace ReviewQuorum

/-! ### Slots that are looked up -/

namespace Memory

variable {m : Memory} {id id' : String}

theorem mem_trackedIds : id ∈ m.trackedIds ↔ ∃ place, m.tracked.get? id = some place := by
  constructor
  · intro h
    obtain ⟨e, he, rfl⟩ := List.mem_map.mp h
    exact ⟨e.2, Dict.get?_eq_some_iff.mpr he⟩
  · rintro ⟨place, h⟩
    exact List.mem_map.mpr ⟨(id, place), Dict.get?_eq_some_iff.mp h, rfl⟩

theorem locate_of_mem (h : id ∈ m.trackedIds) : (m.locate id).2 = m := by
  obtain ⟨place, hplace⟩ := mem_trackedIds.mp h
  rw [locate, hplace]

theorem mem_trackedIds_locate :
    id ∈ (m.locate id').2.trackedIds ↔ id' = id ∨ id ∈ m.trackedIds := by
  by_cases hid : id' = id
  · subst hid
    have hself : id' ∈ (m.locate id').2.trackedIds :=
      mem_trackedIds.mpr ⟨_, get?_tracked_locate m id'⟩
    exact iff_of_true hself (.inl rfl)
  · rw [or_iff_right hid]
    constructor
    · intro h
      obtain ⟨place, hplace⟩ := mem_trackedIds.mp h
      unfold locate at hplace
      split at hplace
      · exact mem_trackedIds.mpr ⟨place, hplace⟩
      · rw [Dict.get?_insert, if_neg hid] at hplace
        exact mem_trackedIds.mpr ⟨place, hplace⟩
    · intro h
      obtain ⟨place, hplace⟩ := mem_trackedIds.mp h
      exact mem_trackedIds.mpr ⟨place, keepsTracked_locate m id' id place hplace⟩

theorem mem_trackedIds_untrack :
    id ∈ (m.untrack id').trackedIds ↔ id ∈ m.trackedIds ∧ id' ≠ id := by
  have hget : (m.untrack id').tracked.get? id = if id' = id then none else m.tracked.get? id :=
    Dict.get?_erase m.tracked id' id
  rw [mem_trackedIds, mem_trackedIds, hget]
  by_cases hid : id' = id <;> simp [hid]

end Memory

/-! ### Programs -/

namespace Program

variable {Q : Type} {A : Q → Type} {α σ : Type} {P : σ → Prop} {answer : (q : Q) → σ → A q × σ}

theorem run_keeps (h : ∀ q s, P s → P (answer q s).2) (p : Program Q A α) {s : σ} (hs : P s) :
    P (p.run answer s).2 := by
  induction p generalizing s with
  | done a => exact hs
  | ask q next ih => exact ih _ (h q s hs)

theorem advance_keeps {stops : Q → σ → Bool} (h : ∀ q s, P s → P (answer q s).2)
    (p : Program Q A α) {s : σ} (hs : P s) : P (p.advance stops answer s).2 := by
  induction p generalizing s with
  | done a => exact hs
  | ask q next ih =>
    rw [advance]
    split
    · exact hs
    · exact ih _ (h q s hs)

end Program

/-! ### Passes -/

namespace World

/-- **A world in which these change requests are tracked**, and no others. -/
def Polls (ids : List String) (w : World) : Prop := w.memory.trackedIds = ids

variable {ids : List String} {w : World} {id : String} {place ticket : Nat}

theorem Polls.interruptByRival (h : w.Polls ids) (hid : id ∈ ids) :
    (w.interruptByRival id).Polls ids := by
  unfold World.interruptByRival
  split
  · exact h
  · have hmemory : (w.memory.locate id).2 = w.memory := Memory.locate_of_mem (h.symm ▸ hid)
    change (w.memory.locate id).2.trackedIds = ids
    rw [hmemory]
    exact h

theorem Polls.reviews (h : w.Polls ids) (id : String) : (w.reviews id).2.Polls ids :=
  onChange_keeps w _ id (fun _ _ => h) fun _ _ => h

/-- **An answer to a pass** over a tracked change request. -/
theorem Polls.answer (h : w.Polls ids) (hid : id ∈ ids) (q : Query) :
    (World.answer id place ticket q w).2.Polls ids := by
  cases q with
  | changeRequest => exact onChange_keeps w _ id (fun _ _ => h) fun _ _ => h
  | comments => exact onChange_keeps w _ id (fun _ _ => h) fun _ _ => h
  | reviews => exact (h.interruptByRival hid).reviews id
  | roleOf account => exact attempt_keeps w _ (fun _ _ => h) h
  | isLatest => exact h
  | postComment body =>
    have hcomment : (w.interruptByComment id).Polls ids := by
      unfold interruptByComment
      split <;> exact h
    have hfailure : (w.interruptByComment id).interruptByFailure.2.Polls ids := by
      unfold interruptByFailure
      split <;> exact hcomment
    rw [World.answer, interruptedPost]
    split
    · rename_i f w₁ hinterrupted
      rw [hinterrupted] at hfailure
      exact hfailure
    · rename_i w₁ hinterrupted
      rw [hinterrupted] at hfailure
      refine onChange_keeps w₁ _ id (fun _ _ => hfailure) fun s _ => ?_
      rw [addReply_eq]
      split_ifs <;> exact hfailure
  | setLabel label present => exact onChange_keeps w _ id (fun _ _ => h) fun _ _ => h
  | pause ms => exact h

theorem Polls.run {α : Type} (h : w.Polls ids) (hid : id ∈ ids) (p : Inquiry α) :
    (p.run (World.answer id place ticket) w).2.Polls ids :=
  p.run_keeps (fun q _ h => h.answer hid q) h

theorem Polls.close (h : w.Polls ids) (result : Except Failure PassEnd) :
    (Reconciler.close id place ticket result w).2.Polls ids := by
  unfold Reconciler.close
  split <;> exact h

end World

namespace Reconciler

variable {r : Reconciler} {ids : List String} {w : World} {id : String}

/-- **A pass looks up the slot of its change request**, and no other. -/
theorem trackedIds_runPass (r : Reconciler) (id : String) (w : World) :
    (r.runPass id w).2.memory.trackedIds = (w.memory.locate id).2.trackedIds := by
  have hid : id ∈ (w.memory.locate id).2.trackedIds :=
    Memory.mem_trackedIds_locate.mpr (.inl rfl)
  have hentered : (enter id w).2.2.Polls (w.memory.locate id).2.trackedIds := rfl
  have hended : (r.ended id w).2.Polls (w.memory.locate id).2.trackedIds := hentered.run hid _
  rw [runPass_eq]
  exact hended.close _

theorem polls_runPass (h : w.Polls ids) (hid : id ∈ ids) : (r.runPass id w).2.Polls ids := by
  rw [World.Polls, trackedIds_runPass, Memory.locate_of_mem (h.symm ▸ hid)]
  exact h

theorem polls_checkGateWithin_succ {action : GateAction} {left : Nat}
    (hpass : (r.runPass id w).2.Polls ids)
    (hrest : ∀ w', w'.Polls ids → (r.checkGateWithin id action left w').2.Polls ids) :
    (r.checkGateWithin id action (left + 1) w).2.Polls ids := by
  unfold checkGateWithin
  split
  all_goals
    rename_i heq
    rw [heq] at hpass
  · exact hpass
  · -- only a pass that is superseded is followed by another one
    exact hrest _ hpass
  · exact hpass

theorem polls_checkGateWithin {action : GateAction} {left : Nat} (h : w.Polls ids)
    (hid : id ∈ ids) : (r.checkGateWithin id action left w).2.Polls ids := by
  induction left generalizing w with
  | zero => exact h
  | succ left ih => exact polls_checkGateWithin_succ (polls_runPass h hid) fun w' h' => ih h'

/-- **The gate looks up the slot of its change request**, and no other. -/
theorem trackedIds_checkGate (r : Reconciler) (id : String) (action : GateAction) (w : World) :
    (r.checkGate id action w).2.memory.trackedIds = (w.memory.locate id).2.trackedIds := by
  have hid : id ∈ (w.memory.locate id).2.trackedIds :=
    Memory.mem_trackedIds_locate.mpr (.inl rfl)
  exact polls_checkGateWithin_succ (r.trackedIds_runPass id w) fun w' h' =>
    polls_checkGateWithin h' hid

end Reconciler

/-! ### Passes side by side -/

theorem Footing.polls_answer {ids : List String} {t : Task} {f : Footing}
    (h : f.world.Polls ids) (hid : t.id ∈ ids) (q : Query) :
    (Footing.answer t q f).2.world.Polls ids := by
  have hanswer (q : Query) : (World.answer t.id t.place t.ticket q f.world).2.Polls ids :=
    h.answer hid q
  cases q with
  | reviews =>
    simp only [Footing.answer]
    split
    · exact h.reviews t.id
    · exact hanswer .reviews
  | _ =>
    simp only [Footing.answer]
    exact hanswer _

namespace Round

variable {r : Reconciler} {ids : List String} {round : Round} {t : Task}

/-- **A round over tracked change requests**: it has started passes over them only, and it will
start no others. -/
structure Listed (ids : List String) (round : Round) : Prop where
  world : round.world.Polls ids
  tasks : ∀ t ∈ round.tasks, t.id ∈ ids
  starts : ∀ id, .start id ∈ round.queue → id ∈ ids

theorem listed_set {tasks : List Task} (h : ∀ t ∈ tasks, t.id ∈ ids) (i : Nat) (ht : t.id ∈ ids) :
    ∀ u ∈ tasks.set i t, u.id ∈ ids := by
  intro u hu
  rcases List.mem_or_eq_of_mem_set hu with hu | rfl
  · exact h u hu
  · exact ht

theorem Listed.enqueue (h : round.Listed ids) (i : Nat) :
    (round.enqueue (.resume i)).Listed ids := by
  refine ⟨h.world, h.tasks, fun id hid => ?_⟩
  rcases List.mem_append.mp hid with hid | hid
  · exact h.starts id hid
  · cases List.mem_singleton.mp hid

theorem Listed.addTask (h : round.Listed ids) (ht : t.id ∈ ids) :
    { round with tasks := round.tasks ++ [t] }.Listed ids := by
  refine ⟨h.world, fun u hu => ?_, h.starts⟩
  rcases List.mem_append.mp hu with hu | hu
  · exact h.tasks u hu
  · rw [List.mem_singleton.mp hu]
    exact ht

theorem Listed.handOver (h : round.Listed ids) (place : Nat) :
    (handOver r round place).Listed ids := by
  unfold Round.handOver
  cases round.tasks.findIdx? (Task.waitsFor place) with
  | none => exact h
  | some j =>
    cases ht : round.tasks[j]? with
    | none => simpa only [ht] using h
    | some t =>
      have hid : t.id ∈ ids := h.tasks t (List.mem_of_getElem? ht)
      simp only [ht]
      refine Listed.enqueue ?_ j
      refine ⟨h.world, listed_set h.tasks j ?_, h.starts⟩
      exact hid

/-- **A pass goes on** until it stops or ends. -/
theorem Listed.advance (h : round.Listed ids) (i : Nat) (ht : t.id ∈ ids)
    (p : Inquiry (Except Failure PassEnd)) : (advance r round i t p).Listed ids := by
  have hworld : (p.advance (Footing.stops round.courtesy) (Footing.answer t)
      ⟨round.world, t.patience, t.gaveWay⟩).2.world.Polls ids :=
    p.advance_keeps (P := fun f : Footing => f.world.Polls ids)
      (fun q _ hf => Footing.polls_answer hf ht q) h.world
  unfold Round.advance
  generalize p.advance (Footing.stops round.courtesy) (Footing.answer t)
    ⟨round.world, t.patience, t.gaveWay⟩ = stopped at hworld ⊢
  obtain ⟨rest, f⟩ := stopped
  simp only
  split
  · -- it ends, and the next one gets its slot
    refine Listed.handOver ?_ t.place
    refine ⟨hworld.close _, listed_set h.tasks i ?_, h.starts⟩
    exact ht
  · -- it goes to sleep
    refine ⟨hworld, listed_set h.tasks i ?_, h.starts⟩
    exact ht
  · -- it gives way before it fetches reviews, where a rival may take a ticket
    refine ⟨hworld.interruptByRival ht, listed_set h.tasks i ?_, h.starts⟩
    exact ht
  · -- its patience is at an end
    refine ⟨hworld, listed_set h.tasks i ?_, h.starts⟩
    exact ht

/-- **A pass starts.** Its slot is there, since its change request is tracked. -/
theorem Listed.begin (h : round.Listed ids) {id : String} (hid : id ∈ ids) :
    (begin r round id).Listed ids := by
  have hticket : World.Polls ids { round.world with
      memory := ((round.world.memory.locate id).2.takeTicket
        (round.world.memory.locate id).1).2 } := by
    change (round.world.memory.locate id).2.trackedIds = ids
    rw [Memory.locate_of_mem (h.world.symm ▸ hid)]
    exact h.world
  have hround : { round with world := { round.world with
      memory := ((round.world.memory.locate id).2.takeTicket
        (round.world.memory.locate id).1).2 } }.Listed ids := ⟨hticket, h.tasks, h.starts⟩
  unfold Round.begin
  simp only
  split
  · exact hround.addTask hid
  · exact (hround.addTask hid).advance _ hid _

theorem Listed.take (h : round.Listed ids) {turn : Turn}
    (hturn : ∀ id, turn = .start id → id ∈ ids) : (take r round turn).Listed ids := by
  cases turn with
  | start id => exact h.begin (hturn id rfl)
  | resume i =>
    simp only [Round.take]
    split
    · exact h
    · rename_i t ht
      split
      · exact h.advance i (h.tasks t (List.mem_of_getElem? ht)) _
      · exact h

theorem listed_wakeTask {tasks : List Task} (h : ∀ t ∈ tasks, t.id ∈ ids) (i : Nat) :
    ∀ t ∈ wakeTask tasks i, t.id ∈ ids := by
  unfold wakeTask
  split
  · exact h
  · rename_i t ht
    split
    · refine listed_set h i ?_
      exact h t (List.mem_of_getElem? ht)
    · exact h

theorem Listed.wakeAt (h : round.Listed ids) (time : Nat) : (round.wakeAt time).Listed ids := by
  refine ⟨h.world, ?_, fun id hid => ?_⟩
  · have hfold (is : List Nat) : ∀ {tasks : List Task}, (∀ t ∈ tasks, t.id ∈ ids) →
        ∀ t ∈ is.foldl wakeTask tasks, t.id ∈ ids := by
      induction is with
      | nil => exact fun h => h
      | cons i is ih => exact fun h => ih (listed_wakeTask h i)
    exact hfold _ h.tasks
  · obtain ⟨i, -, hi⟩ := List.mem_map.mp hid
    cases hi

theorem Listed.bringBack (h : round.Listed ids) : round.bringBack.Listed ids := by
  refine ⟨h.world, h.tasks, fun id hid => ?_⟩
  rcases List.mem_append.mp hid with hid | hid
  · exact h.starts id hid
  · obtain ⟨i, -, hi⟩ := List.mem_map.mp hid
    cases hi

/-- **A round goes on.** -/
theorem Listed.runFor (h : round.Listed ids) (n : Nat) : (runFor r n round).Listed ids := by
  induction n generalizing round with
  | zero => exact h
  | succ n ih =>
    unfold Round.runFor
    split
    · -- the next turn of the queue
      rename_i turn queue left hqueue hleft
      have hrest : { round with queue := queue, turnsLeft := left }.Listed ids :=
        ⟨h.world, h.tasks, fun id hid => h.starts id (hqueue ▸ List.mem_cons_of_mem _ hid)⟩
      refine ih (hrest.take fun id hid => h.starts id ?_)
      rw [hqueue, hid]
      exact List.mem_cons_self
    · split
      · split
        · exact h
        · exact ih (h.wakeAt _)
      · exact ih h.bringBack
    · exact ih h.bringBack

end Round

namespace Reconciler

/-- The round of a tick, when it has ended. -/
def tickRound (r : Reconciler) (w : World) : Round :=
  Round.runFor r (Round.steps w.memory.trackedIds w)
    ⟨w, [], w.memory.trackedIds.map .start, Round.turnsInARow, [], [], false⟩

/-- The change requests that a tick polls, one for each of its passes. Any schedule starts a pass
for each tracked one and no other; here the passes are those of the round. -/
def polled (r : Reconciler) (w : World) : List String := (r.tickRound w).tasks.map (·.id)

theorem listed_tickRound (r : Reconciler) (w : World) :
    (r.tickRound w).Listed w.memory.trackedIds := by
  have hstart : Round.Listed w.memory.trackedIds ⟨w, [], w.memory.trackedIds.map .start,
      Round.turnsInARow, [], [], false⟩ := by
    refine ⟨rfl, fun t ht => absurd ht List.not_mem_nil, fun id hid => ?_⟩
    obtain ⟨id', hid', hturn⟩ := List.mem_map.mp hid
    exact Turn.start.inj hturn ▸ hid'
  exact hstart.runFor _

theorem world_tick (r : Reconciler) (w : World) : (r.tick w).2 = (r.tickRound w).world := rfl

/-- **A tick leaves the tracked change requests as they are.** -/
theorem trackedIds_tick (r : Reconciler) (w : World) :
    (r.tick w).2.memory.trackedIds = w.memory.trackedIds := by
  rw [world_tick]
  exact (r.listed_tickRound w).world

/-- **A tick polls tracked change requests only.** -/
theorem mem_trackedIds_of_polled {r : Reconciler} {w : World} {id : String} (h : id ∈ r.polled w) :
    id ∈ w.memory.trackedIds := by
  obtain ⟨t, ht, rfl⟩ := List.mem_map.mp h
  exact (r.listed_tickRound w).tasks t ht

end Reconciler

/-! ### What is done with a reconciler -/

/-- What is done with a reconciler. -/
inductive Deed
  | track (id : String)
  | untrack (id : String)
  | pass (id : String)
  | gate (id : String) (action : GateAction)
  | look (id : String)
  | tick
deriving DecidableEq

namespace Deed

/-- The world after a deed. -/
def perform (r : Reconciler) : Deed → World → World
  | track id, w => { w with memory := w.memory.track id }
  | untrack id, w => { w with memory := w.memory.untrack id }
  | pass id, w => (r.runPass id w).2
  | gate id action, w => (r.checkGate id action w).2
  | look id, w => { w with memory := (w.memory.look id).2 }
  | tick, w => (r.tick w).2

/-- Whether a deed looks up the slot of a change request by its identifier. -/
def LooksUp (id : String) : Deed → Prop
  | track id' => id' = id
  | pass id' => id' = id
  | gate id' _ => id' = id
  | look id' => id' = id
  | untrack _ => False
  | tick => False

/-- **One deed.** A change request is tracked after it iff the deed looks up its slot, or if it was
tracked before and the deed is not to untrack it. -/
theorem mem_trackedIds (r : Reconciler) (d : Deed) (w : World) (id : String) :
    id ∈ (d.perform r w).memory.trackedIds ↔
      d.LooksUp id ∨ (d ≠ .untrack id ∧ id ∈ w.memory.trackedIds) := by
  have hlocate (id' : String) (d : Deed) (hd : d ≠ .untrack id) :
      id ∈ (w.memory.locate id').2.trackedIds ↔
        id' = id ∨ (d ≠ .untrack id ∧ id ∈ w.memory.trackedIds) := by
    rw [Memory.mem_trackedIds_locate, and_iff_right hd]
  cases d with
  | track id' => exact hlocate id' _ nofun
  | pass id' =>
    rw [perform, Reconciler.trackedIds_runPass]
    exact hlocate id' _ nofun
  | gate id' action =>
    rw [perform, Reconciler.trackedIds_checkGate]
    exact hlocate id' _ nofun
  | look id' => exact hlocate id' _ nofun
  | untrack id' =>
    have hne : Deed.untrack id' ≠ .untrack id ↔ id' ≠ id := by simp
    change id ∈ (w.memory.untrack id').trackedIds ↔ False ∨ _
    rw [Memory.mem_trackedIds_untrack, hne, false_or, and_comm]
  | tick =>
    rw [perform, Reconciler.trackedIds_tick]
    simp [LooksUp]

end Deed

/-- **Deeds in a row**, beginning with a world. Between two of them anything may happen but to what
is remembered. -/
inductive Performed (r : Reconciler) (w₀ : World) : List Deed → World → Prop
  | start : Performed r w₀ [] w₀
  | meanwhile {ds : List Deed} {w w' : World} (h : Performed r w₀ ds w)
      (hmemory : w'.memory = w.memory) : Performed r w₀ ds w'
  | perform {ds : List Deed} {w : World} (h : Performed r w₀ ds w) (d : Deed) :
      Performed r w₀ (ds ++ [d]) (d.perform r w)

/-- Somebody has asked to track a change request, and nobody to untrack it since. -/
def Enlisted (id : String) (ds : List Deed) : Prop :=
  HappenedSince (· = .track id) (· = .untrack id) ds

/-- The slot of a change request has been looked up, and nobody has asked to untrack it since. -/
def Opened (id : String) (ds : List Deed) : Prop :=
  HappenedSince (Deed.LooksUp id) (· = .untrack id) ds

section Deeds

variable {r : Reconciler} {w₀ w : World} {ds : List Deed} {id : String}

/-- **What is tracked**: the change requests whose slot has been looked up since they were last
untracked. -/
theorem mem_trackedIds_iff (h : Performed r w₀ ds w) (hfresh : w₀.memory = .empty) :
    id ∈ w.memory.trackedIds ↔ Opened id ds := by
  induction h with
  | start =>
    rw [hfresh]
    exact iff_of_false List.not_mem_nil not_happenedSince_nil
  | meanwhile h hmemory ih => rw [hmemory, ih]
  | perform h d ih => rw [Deed.mem_trackedIds, Opened, happenedSince_concat, ih]; rfl

theorem exists_performed (r : Reconciler) (w₀ : World) (ds : List Deed) :
    ∃ w, Performed r w₀ ds w := by
  induction ds using List.reverseRecOn with
  | nil => exact ⟨w₀, .start⟩
  | append_singleton ds d ih =>
    obtain ⟨w, h⟩ := ih
    exact ⟨_, h.perform d⟩

/-- What has been looked up since it was last untracked has also been asked for since, all the way,
iff nobody looks it up without that. -/
theorem opened_imp_enlisted_iff : (∀ es, es <+: ds → Opened id es → Enlisted id es) ↔
    ∀ es d, es ++ [d] <+: ds → d.LooksUp id → d = .track id ∨ Enlisted id es := by
  constructor
  · intro h es d hbegins hd
    have hopened : Opened id (es ++ [d]) := happenedSince_concat.mpr (.inl hd)
    exact (happenedSince_concat.mp (h _ hbegins hopened)).imp_right And.right
  · intro h es
    induction es using List.reverseRecOn with
    | nil => exact fun _ hopened => absurd hopened not_happenedSince_nil
    | append_singleton es d ih =>
      intro hbegins hopened
      have hbefore : es <+: ds := (List.prefix_append es [d]).trans hbegins
      rw [Enlisted, happenedSince_concat]
      rcases happenedSince_concat.mp hopened with hd | ⟨hd, hes⟩
      · by_cases htrack : d = .track id
        · exact .inl htrack
        · have hkept : d ≠ .untrack id := fun heq => by rw [heq] at hd; exact hd
          exact .inr ⟨hkept, (h es d hbegins hd).resolve_left htrack⟩
      · exact .inr ⟨hd, ih hbefore hes⟩

end Deeds

/-- **What is polled.** A reconciler begins with an empty memory, and deeds follow in a row. A
change request is tracked iff its slot has been looked up since it was last untracked, and a tick
polls tracked change requests only. A change request is tracked all the way only while somebody has
asked for it, iff nobody runs a pass over it, asks the gate or looks at its context while it is not
asked for. -/
theorem poll_set (r : Reconciler) (w₀ w : World) (ds : List Deed) (id : String)
    (hfresh : w₀.memory = .empty) (h : Performed r w₀ ds w) :
    (id ∈ w.memory.trackedIds ↔ Opened id ds) ∧
      (id ∈ r.polled w → id ∈ w.memory.trackedIds) ∧
      ((∀ es w', es <+: ds → Performed r w₀ es w' → id ∈ w'.memory.trackedIds → Enlisted id es) ↔
        ∀ es d, es ++ [d] <+: ds → d.LooksUp id → d = .track id ∨ Enlisted id es) := by
  refine ⟨mem_trackedIds_iff h hfresh, Reconciler.mem_trackedIds_of_polled, ?_⟩
  rw [← opened_imp_enlisted_iff]
  constructor
  · intro hall es hbegins hopened
    obtain ⟨w', hes⟩ := exists_performed r w₀ es
    exact hall es w' hbegins hes ((mem_trackedIds_iff hes hfresh).mpr hopened)
  · intro hall es w' hbegins hes hmem
    exact hall es hbegins ((mem_trackedIds_iff hes hfresh).mp hmem)

/-- The world of a reconciler whose forge knows no change request. -/
def emptyWorld : World := .start (Forge.empty "revgate-bot") .empty

/-- Change request `1` is tracked, a pass over it is run, and it is untracked. -/
def askedForFirst : List Deed := [.track "1", .pass "1", .untrack "1"]

/-- The pass fails, and afterwards nothing is tracked or polled; and all the way what is tracked has
been asked for. -/
theorem poll_set_askedForFirst :
    let r : Reconciler := .ofSettings {}
    let w := askedForFirst.foldl (fun w d => d.perform r w) emptyWorld
    emptyWorld.memory = .empty ∧ Performed r emptyWorld askedForFirst w ∧
      "1" ∉ w.memory.trackedIds ∧ "1" ∉ r.polled w ∧
      ∀ es w', es <+: askedForFirst → Performed r emptyWorld es w' →
        "1" ∈ w'.memory.trackedIds → Enlisted "1" es := by
  intro r w
  have hperformed : Performed r emptyWorld askedForFirst w :=
    ((Performed.start.perform (.track "1")).perform (.pass "1")).perform (.untrack "1")
  obtain ⟨hmem, hpolled, hall⟩ := poll_set r emptyWorld w askedForFirst "1" rfl hperformed
  have hnot : "1" ∉ w.memory.trackedIds := by
    rw [hmem]
    change ¬ Opened "1" ([.track "1", .pass "1"] ++ [.untrack "1"])
    rw [Opened, happenedSince_concat]
    simp [Deed.LooksUp]
  refine ⟨rfl, hperformed, hnot, fun h => hnot (hpolled h), hall.mpr fun es d hbegins hd => ?_⟩
  have htracked : Enlisted "1" [.track "1"] := ⟨_, [], List.suffix_rfl, rfl, nofun⟩
  -- one case for each deed
  rcases es with _ | ⟨a, _ | ⟨b, _ | ⟨c, es⟩⟩⟩
  · obtain ⟨rfl, -⟩ := List.cons_prefix_cons.mp hbegins
    exact .inl rfl
  · obtain ⟨rfl, -⟩ := List.cons_prefix_cons.mp hbegins
    exact .inr htracked
  · obtain ⟨-, hrest⟩ := List.cons_prefix_cons.mp hbegins
    obtain ⟨-, hlast⟩ := List.cons_prefix_cons.mp hrest
    obtain ⟨rfl, -⟩ := List.cons_prefix_cons.mp hlast
    cases hd
  · have hlength := hbegins.length_le
    simp only [askedForFirst, List.length_append, List.length_cons, List.length_nil] at hlength
    omega

/-- A pass over a change request that has been untracked puts it back among those that are polled,
though the forge does not know it. -/
theorem polled_after_untrack :
    let r : Reconciler := .ofSettings {}
    let ds : List Deed := [.track "1", .untrack "1", .pass "1"]
    let w := ds.foldl (fun w d => d.perform r w) emptyWorld
    Performed r emptyWorld ds w ∧ "1" ∈ w.memory.trackedIds ∧ "1" ∈ r.polled w ∧
      ¬ Enlisted "1" ds := by
  intro r ds w
  have hperformed : Performed r emptyWorld ds w :=
    ((Performed.start.perform (.track "1")).perform (.untrack "1")).perform (.pass "1")
  refine ⟨hperformed, ?_, ?_, ?_⟩
  · have hending : [.pass "1"] <:+ ds := ⟨[.track "1", .untrack "1"], rfl⟩
    exact (mem_trackedIds_iff hperformed rfl).mpr ⟨.pass "1", [], hending, rfl, nofun⟩
  · decide +kernel
  · change ¬ Enlisted "1" (([.track "1"] ++ [.untrack "1"]) ++ [.pass "1"])
    rw [Enlisted, happenedSince_concat, happenedSince_concat]
    simp

end ReviewQuorum
