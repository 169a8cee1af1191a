import Mathlib.Algebra.BigOperators.Group.Finset.Piecewise
import Mathlib.Algebra.BigOperators.Intervals
import Mathlib.Data.List.Perm.Basic
import Mathlib.Data.Finset.Range
import ReviewQuorum.Proofs.PassTurns

/-! # Rounds end

A round takes a bounded number of steps, and that they are enough has to be shown: a pass may wait
for its slot, sleep or stand aside, and what others do in between decides what it meets.

Every pass that has not ended keeps a credit of turns. One that is still to be started counts three,
one that waits has two at least, and one that goes on has one for its next turn and can afford its
stops out of the others (`Stands`). Since failures pay for the turns that they lead to, each turn
lowers the sum of the credits and twice the failures that the world has in store
(`Round.Funded.take`). A move of the clock and the return of those who stand aside leave the sum as
it is, but then the queue is neither empty nor held up, so that a turn comes next
(`Round.Funded.runFor`).

Nobody is lost in the meantime: who goes on is in exactly one of the queue, the passes aside and
those asleep, and who waits for a slot waits for a pass that goes on (`Held`). So a round is over
only when all its passes have ended, one for each of the identifiers (`Round.isFinished_ended`). -/

namespace ReviewQuorum

open Inquiry (Affords)

/-- The pass that goes on in a turn. -/
def Turn.resumed? : Turn → Option Nat
  | resume i => some i
  | start _ => none

/-- The pass that starts in a turn. -/
def Turn.started? : Turn → Option String
  | start id => some id
  | resume _ => none

theorem Turn.filterMap_resumed? (is : List Nat) :
    (is.map Turn.resume).filterMap Turn.resumed? = is := by
  rw [List.filterMap_map]
  exact List.filterMap_some

theorem Turn.filterMap_started? (is : List Nat) :
    (is.map Turn.resume).filterMap Turn.started? = [] := by
  rw [List.filterMap_map]
  exact List.filterMap_eq_nil_iff.mpr fun _ _ => rfl

theorem Task.waitsFor_iff {place : Nat} {t : Task} :
    t.waitsFor place = true ↔ t.stage = .waiting ∧ t.place = place := by
  cases hstage : t.stage <;> simp [Task.waitsFor, hstage]

namespace Round

/-- The passes whose turn comes without a move of the clock. -/
def awake (round : Round) : List Nat := round.queue.filterMap Turn.resumed? ++ round.aside

/-- The passes that sleep. -/
def sleepers (round : Round) : List Nat := round.asleep.map (·.2)

/-- The passes that are still to be started. -/
def starts (round : Round) : List String := round.queue.filterMap Turn.started?

end Round

/-! ### Where passes stand -/

/-- A program that can afford its stops, or all but the first one, at which it does not stop again
in its next turn. -/
def Task.Released (courtesy : Bool) (t : Task) (p : Inquiry (Except Failure PassEnd)) (k : Nat) :
    Prop :=
  Affords (fun _ => 0) p k ∨ ∃ q next, p = .ask q next ∧
    (∀ w, Footing.stops courtesy q ⟨w, t.patience, t.gaveWay⟩ = false) ∧
    ∀ a, Affords (fun _ => 0) (next a) (k + q.grant a)

namespace Round

/-- **Where a pass stands**: its credit, and how often it is among those awake and those asleep. -/
inductive Stands (courtesy : Bool) (t : Task) : Nat → Nat → Nat → Prop
  | waiting {credit : Nat} (h : t.stage = .waiting) (hcredit : 2 ≤ credit) :
    Stands courtesy t credit 0 0
  | finished {result : Except Failure PassResult} (h : t.stage = .finished result) :
    Stands courtesy t 0 0 0
  | awake {p : Inquiry (Except Failure PassEnd)} {k : Nat} (h : t.stage = .running p)
    (hp : t.Released courtesy p k) : Stands courtesy t (k + 1) 1 0
  | asleep {p : Inquiry (Except Failure PassEnd)} {k : Nat} (h : t.stage = .running p)
    (hp : Affords (fun _ => 0) p.wake k) : Stands courtesy t (k + 1) 0 1

theorem Stands.of_awake {courtesy : Bool} {t : Task} {credit awake asleep : Nat}
    (h : Stands courtesy t credit awake asleep) (hawake : 0 < awake) :
    awake = 1 ∧ asleep = 0 ∧ ∃ p k, t.stage = .running p ∧ credit = k + 1 ∧
      t.Released courtesy p k := by
  cases h with
  | awake h hp => exact ⟨rfl, rfl, _, _, h, rfl, hp⟩
  | _ => cases hawake

theorem Stands.of_asleep {courtesy : Bool} {t : Task} {credit awake asleep : Nat}
    (h : Stands courtesy t credit awake asleep) (hasleep : 0 < asleep) :
    awake = 0 ∧ asleep = 1 ∧ ∃ p k, t.stage = .running p ∧ credit = k + 1 ∧
      Affords (fun _ => 0) p.wake k := by
  cases h with
  | asleep h hp => exact ⟨rfl, rfl, _, _, h, rfl, hp⟩
  | _ => cases hasleep

theorem Stands.of_waiting {courtesy : Bool} {t : Task} {credit awake asleep : Nat}
    (h : Stands courtesy t credit awake asleep) (hstage : t.stage = .waiting) :
    2 ≤ credit ∧ awake = 0 ∧ asleep = 0 := by
  cases h with
  | waiting h hcredit => exact ⟨hcredit, rfl, rfl⟩
  | finished h => rw [hstage] at h; cases h
  | awake h hp => rw [hstage] at h; cases h
  | asleep h hp => rw [hstage] at h; cases h

theorem Stands.of_running {courtesy : Bool} {t : Task} {credit awake asleep : Nat}
    {p : Inquiry (Except Failure PassEnd)} (h : Stands courtesy t credit awake asleep)
    (hstage : t.stage = .running p) : 0 < awake + asleep := by
  cases h with
  | waiting h hcredit => rw [hstage] at h; cases h
  | finished h => rw [hstage] at h; cases h
  | awake h hp => exact Nat.one_pos
  | asleep h hp => exact Nat.one_pos

/-- **Where all passes stand**, but for the one whose turn it is: that one is nowhere and has no
credit. -/
structure Standing (courtesy : Bool) (current : Option Nat) (tasks : List Task)
    (awake asleep : List Nat) (credit : Nat → Nat) : Prop where
  stands : ∀ i t, tasks[i]? = some t → current ≠ some i →
    Stands courtesy t (credit i) (awake.count i) (asleep.count i)
  known : ∀ i, i ∈ awake ∨ i ∈ asleep → i < tasks.length ∧ current ≠ some i
  spent : ∀ i, current = some i → i < tasks.length ∧ credit i = 0

namespace Standing

variable {courtesy : Bool} {current : Option Nat} {tasks : List Task} {awake asleep : List Nat}
  {awake' asleep' : List Nat} {credit : Nat → Nat} {t : Task} {i c : Nat}

theorem sum_update {n : Nat} (hi : i < n) (credit : Nat → Nat) (c : Nat) :
    ∑ j ∈ Finset.range n, Function.update credit i c j + credit i =
      ∑ j ∈ Finset.range n, credit j + c := by
  have hmem : i ∈ Finset.range n := Finset.mem_range.mpr hi
  have hold := Finset.sum_update_of_mem hmem credit (credit i)
  rw [Function.update_eq_self] at hold
  rw [Finset.sum_update_of_mem hmem, hold]
  omega

theorem congr (h : Standing courtesy current tasks awake asleep credit)
    (hawake : awake'.Perm awake) (hasleep : asleep'.Perm asleep) :
    Standing courtesy current tasks awake' asleep' credit where
  stands j u hu hj := by
    rw [hawake.count_eq, hasleep.count_eq]
    exact h.stands j u hu hj
  known j hj := h.known j (hj.imp hawake.mem_iff.mp hasleep.mem_iff.mp)
  spent := h.spent

theorem count_more_of_ne {j a : Nat} (hj : j ≠ i) (l : List Nat) :
    (List.replicate a i ++ l).count j = l.count j := by
  rw [List.count_append, List.count_replicate, if_neg (by simpa using Ne.symm hj), Nat.zero_add]

theorem count_more_self {a : Nat} {l : List Nat} (hi : i ∉ l) :
    (List.replicate a i ++ l).count i = a := by
  rw [List.count_append, List.count_replicate_self, List.count_eq_zero.mpr hi, Nat.add_zero]

theorem mem_more_of_ne {j a : Nat} (hj : j ≠ i) {l : List Nat} :
    j ∈ List.replicate a i ++ l ↔ j ∈ l := by
  rw [← List.count_pos_iff, count_more_of_ne hj, List.count_pos_iff]

/-- The pass whose turn it is takes its place again. -/
theorem seat {a s : Nat} (h : Standing courtesy (some i) tasks awake asleep credit)
    (ht : Stands courtesy t c a s) :
    Standing courtesy none (tasks.set i t) (List.replicate a i ++ awake)
      (List.replicate s i ++ asleep) (Function.update credit i c) where
  stands j u hu _ := by
    by_cases hj : j = i
    · subst hj
      rw [List.getElem?_set_self (h.spent j rfl).1] at hu
      rw [Function.update_self, ← Option.some.inj hu,
        count_more_self fun hmem => (h.known j (.inl hmem)).2 rfl,
        count_more_self fun hmem => (h.known j (.inr hmem)).2 rfl]
      exact ht
    · rw [List.getElem?_set_ne (Ne.symm hj)] at hu
      rw [Function.update_of_ne hj, count_more_of_ne hj, count_more_of_ne hj]
      exact h.stands j u hu fun heq => hj (Option.some.inj heq).symm
  known j hj := by
    rw [List.length_set]
    by_cases hji : j = i
    · exact ⟨hji ▸ (h.spent i rfl).1, nofun⟩
    · exact ⟨(h.known j (hj.imp (mem_more_of_ne hji).mp (mem_more_of_ne hji).mp)).1, nofun⟩
  spent := nofun

/-- A pass gets its turn: it leaves its place and its credit. -/
theorem leave {a s : Nat} (h : Standing courtesy none tasks (List.replicate a i ++ awake)
    (List.replicate s i ++ asleep) credit) (ht : tasks[i]? = some t) (hawake : i ∉ awake)
    (hasleep : i ∉ asleep) :
    Standing courtesy (some i) tasks awake asleep (Function.update credit i 0) where
  stands j u hu hj := by
    have hji : j ≠ i := fun heq => hj (congrArg some heq.symm)
    have hstands := h.stands j u hu nofun
    rw [count_more_of_ne hji, count_more_of_ne hji] at hstands
    rw [Function.update_of_ne hji]
    exact hstands
  known j hj := by
    have hji : j ≠ i := fun heq => by
      rw [heq] at hj
      exact hj.elim hawake hasleep
    exact ⟨(h.known j (hj.imp (mem_more_of_ne hji).mpr (mem_more_of_ne hji).mpr)).1, fun heq =>
      hji (Option.some.inj heq).symm⟩
  spent j hj := by
    obtain rfl := Option.some.inj hj
    obtain ⟨hlt, -⟩ := List.getElem?_eq_some_iff.mp ht
    exact ⟨hlt, Function.update_self _ _ _⟩

theorem leave_awake (h : Standing courtesy none tasks (i :: awake) asleep credit) :
    ∃ t p k, tasks[i]? = some t ∧ t.stage = .running p ∧ credit i = k + 1 ∧
      t.Released courtesy p k ∧
      Standing courtesy (some i) tasks awake asleep (Function.update credit i 0) := by
  obtain ⟨hi, -⟩ := h.known i (.inl List.mem_cons_self)
  have ht : tasks[i]? = some tasks[i] := List.getElem?_eq_getElem hi
  have hstands := h.stands i _ ht nofun
  rw [List.count_cons_self] at hstands
  obtain ⟨hawake, hasleep, p, k, hstage, hcredit, hp⟩ := hstands.of_awake (Nat.succ_pos _)
  have hleft := leave (a := 1) (s := 0) h ht (List.count_eq_zero.mp (Nat.succ.inj hawake))
    (List.count_eq_zero.mp hasleep)
  exact ⟨_, p, k, ht, hstage, hcredit, hp, hleft⟩

theorem wake (h : Standing courtesy none tasks awake (i :: asleep) credit) :
    Standing courtesy none (wakeTask tasks i) (i :: awake) asleep credit := by
  obtain ⟨hi, -⟩ := h.known i (.inr List.mem_cons_self)
  have ht : tasks[i]? = some tasks[i] := List.getElem?_eq_getElem hi
  have hstands := h.stands i _ ht nofun
  rw [List.count_cons_self] at hstands
  obtain ⟨hawake, hasleep, p, k, hstage, hcredit, hp⟩ := hstands.of_asleep (Nat.succ_pos _)
  have hleft := leave (a := 0) (s := 1) h ht (List.count_eq_zero.mp hawake)
    (List.count_eq_zero.mp (Nat.succ.inj hasleep))
  have hseated := hleft.seat (a := 1) (s := 0) (.awake (t := { tasks[i] with
    stage := .running p.wake }) rfl (.inl hp))
  rw [Function.update_idem, ← hcredit, Function.update_eq_self] at hseated
  rw [wakeTask, ht]
  simp only [hstage]
  exact hseated

theorem wake_all (is : List Nat) (h : Standing courtesy none tasks awake (is ++ asleep) credit) :
    Standing courtesy none (is.foldl wakeTask tasks) (is ++ awake) asleep credit := by
  induction is generalizing tasks awake with
  | nil => exact h
  | cons i is ih => exact (ih h.wake).congr List.perm_middle.symm .rfl

end Standing

/-- Who waits for a slot waits for a pass that goes on, unless the slot is free. -/
def Held (free : Option Nat) (tasks : List Task) : Prop :=
  ∀ t ∈ tasks, t.stage = .waiting → free ≠ some t.place →
    ∃ u ∈ tasks, u.place = t.place ∧ ∃ p, u.stage = .running p

namespace Held

variable {tasks : List Task} {t t' : Task} {i : Nat}

theorem weaken {free : Option Nat} (h : Held none tasks) : Held free tasks :=
  fun t ht hwaits _ => h t ht hwaits nofun

theorem set (h : Held (some t.place) tasks) (ht : tasks[i]? = some t)
    (hstage : t'.stage ≠ .waiting) : Held (some t.place) (tasks.set i t') := by
  intro u hu hwaits hfree
  have hmem : u ∈ tasks := by
    rcases List.mem_or_eq_of_mem_set hu with hmem | rfl
    · exact hmem
    · exact absurd hwaits hstage
  obtain ⟨v, hv, hvplace, hruns⟩ := h u hmem hwaits hfree
  obtain ⟨j, hj⟩ := List.getElem?_of_mem hv
  have hji : i ≠ j := fun heq => by
    subst heq
    obtain rfl := Option.some.inj (ht.symm.trans hj)
    exact hfree (congrArg some hvplace)
  refine ⟨v, List.mem_of_getElem? (i := j) ?_, hvplace, hruns⟩
  rw [List.getElem?_set_ne hji]
  exact hj

theorem of_free {place : Nat} (h : Held (some place) tasks)
    (htaken : (∀ t ∈ tasks, t.stage = .waiting → t.place ≠ place) ∨
      ∃ u ∈ tasks, u.place = place ∧ ∃ p, u.stage = .running p) : Held none tasks := by
  intro t ht hwaits _
  by_cases hplace : t.place = place
  · rcases htaken with hnobody | ⟨u, hu, huplace, hruns⟩
    · exact absurd hplace (hnobody t ht hwaits)
    · exact ⟨u, hu, huplace.trans hplace.symm, hruns⟩
  · exact h t ht hwaits fun heq => hplace (Option.some.inj heq).symm

theorem set_running {p : Inquiry (Except Failure PassEnd)} (h : Held (some t.place) tasks)
    (ht : tasks[i]? = some t) (hplace : t'.place = t.place) (hruns : t'.stage = .running p) :
    Held none (tasks.set i t') := by
  have hset : Held (some t.place) (tasks.set i t') :=
    h.set ht fun hwaits => by rw [hruns] at hwaits; cases hwaits
  obtain ⟨hi, -⟩ := List.getElem?_eq_some_iff.mp ht
  exact hset.of_free (.inr ⟨t', List.mem_set hi t', hplace, p, hruns⟩)

theorem append (h : Held none tasks)
    (ht : t.stage = .waiting → ∃ u ∈ tasks, u.place = t.place ∧ u.isFinished = false) :
    Held none (tasks ++ [t]) := by
  intro u hu hwaits _
  have hholder : ∃ v ∈ tasks, v.place = u.place ∧ ∃ p, v.stage = .running p := by
    rcases List.mem_append.mp hu with hu | hu
    · exact h u hu hwaits nofun
    · obtain rfl := List.mem_singleton.mp hu
      obtain ⟨v, hv, hplace, hfinished⟩ := ht hwaits
      cases hstage : v.stage with
      | running p => exact ⟨v, hv, hplace, p, hstage⟩
      | finished result => rw [Task.isFinished, hstage] at hfinished; cases hfinished
      | waiting =>
        -- it waits for the same slot, and so for the pass that holds it
        obtain ⟨v', hv', hplace', hruns⟩ := h v hv hstage nofun
        exact ⟨v', hv', hplace'.trans hplace, hruns⟩
  obtain ⟨v, hv, hplace, hruns⟩ := hholder
  exact ⟨v, List.mem_append_left _ hv, hplace, hruns⟩

theorem wake (h : Held none tasks) (i : Nat) : Held none (wakeTask tasks i) := by
  unfold wakeTask
  split
  · exact h
  · rename_i t ht
    split
    · exact h.weaken.set_running ht rfl rfl
    · exact h

end Held

variable {r : Reconciler} {ids : List String} {round : Round} {t : Task}
  {current free : Option Nat} {i n k : Nat}

/-! ### The account of a round -/

/-- **A round whose passes can afford what they do** out of so many turns. -/
structure Funded (current free : Option Nat) (ids : List String) (credit : Nat → Nat) (n : Nat)
    (round : Round) : Prop where
  standing : Standing round.courtesy current round.tasks round.awake round.sleepers credit
  held : Held free round.tasks
  ids : round.tasks.map (·.id) ++ round.starts = ids
  sum : ∑ j ∈ Finset.range round.tasks.length, credit j + 3 * round.starts.length +
    2 * round.world.failures ≤ n

theorem map_id_set {tasks : List Task} {u : Task} (hu : tasks[i]? = some u) (hid : t.id = u.id) :
    (tasks.set i t).map (·.id) = tasks.map (·.id) := by
  obtain ⟨hi, rfl⟩ := List.getElem?_eq_some_iff.mp hu
  have hi' : i < (tasks.map (·.id)).length := by rwa [List.length_map]
  have hget : (tasks.map (·.id))[i] = tasks[i].id := List.getElem_map _
  rw [List.map_set, hid, ← hget]
  exact List.set_getElem_self hi'

/-- The pass whose turn it is takes its place again, with a credit that is covered. -/
theorem Funded.seat {credit : Nat → Nat} {round' : Round} {a s c m : Nat} {u : Task}
    (h : round.Funded (some i) current ids credit n) (hu : round.tasks[i]? = some u)
    (htasks : round'.tasks = round.tasks.set i t) (ht : Stands round.courtesy t c a s)
    (hid : t.id = u.id) (hawake : round'.awake.Perm (List.replicate a i ++ round.awake))
    (hasleep : round'.sleepers.Perm (List.replicate s i ++ round.sleepers))
    (hcourtesy : round'.courtesy = round.courtesy)
    (hstarts : round'.starts = round.starts) (hheld : Held free round'.tasks)
    (hm : n + c + 2 * round'.world.failures ≤ m + 2 * round.world.failures) :
    round'.Funded none free ids (Function.update credit i c) m where
  standing := by
    rw [hcourtesy, htasks]
    exact (h.standing.seat ht).congr hawake hasleep
  held := hheld
  ids := by
    rw [htasks, hstarts, map_id_set hu hid]
    exact h.ids
  sum := by
    obtain ⟨hi, hcredit⟩ := h.standing.spent i rfl
    have hsum := Standing.sum_update hi credit c
    have := h.sum
    rw [htasks, hstarts, List.length_set]
    omega

/-- A pass gets its turn, and what it had is to be spent. -/
theorem Funded.leave {credit : Nat → Nat} (h : round.Funded none free ids credit n)
    (round' : Round) (htasks : round'.tasks = round.tasks)
    (hstanding : Standing round'.courtesy (some i) round'.tasks round'.awake round'.sleepers
      (Function.update credit i 0))
    (hstarts : round'.starts = round.starts) (hworld : round'.world = round.world) :
    ∃ m, m + credit i = n ∧
      round'.Funded (some i) free ids (Function.update credit i 0) m := by
  obtain ⟨hi, -⟩ := hstanding.spent i rfl
  have hsum := Standing.sum_update hi credit 0
  have hn := h.sum
  rw [htasks] at hsum
  refine ⟨n - credit i, by omega, hstanding, htasks ▸ h.held, ?_, ?_⟩
  · rw [htasks, hstarts]
    exact h.ids
  · rw [htasks, hstarts, hworld]
    omega

/-! ### Turns -/

theorem Funded.handOver {place : Nat} (credit : Nat → Nat)
    (h : round.Funded none (some place) ids credit n) :
    ∃ credit', (handOver r round place).Funded none none ids credit' n := by
  unfold Round.handOver
  cases hfind : round.tasks.findIdx? (Task.waitsFor place) with
  | none =>
    have hnobody : ∀ t ∈ round.tasks, t.stage = .waiting → t.place ≠ place := by
      intro t ht hstage hplace
      have hpasses := List.findIdx?_eq_none_iff.mp hfind t ht
      rw [Task.waitsFor_iff.mpr ⟨hstage, hplace⟩] at hpasses
      cases hpasses
    exact ⟨credit, h.standing, h.held.of_free (.inl hnobody), h.ids, h.sum⟩
  | some j =>
    obtain ⟨hj, hwaits, -⟩ := List.findIdx?_eq_some_iff_getElem.mp hfind
    have ht : round.tasks[j]? = some round.tasks[j] := List.getElem?_eq_getElem hj
    simp only [ht]
    generalize round.tasks[j] = t at ht hwaits
    obtain ⟨hstage, rfl⟩ := Task.waitsFor_iff.mp hwaits
    obtain ⟨hcredit, hawake, hasleep⟩ := (h.standing.stands j t ht nofun).of_waiting hstage
    obtain ⟨k, hk⟩ := Nat.exists_eq_add_of_le hcredit
    obtain ⟨m, hm, hleft⟩ := h.leave round rfl
      (Standing.leave (a := 0) (s := 0) h.standing ht (List.count_eq_zero.mp hawake)
        (List.count_eq_zero.mp hasleep)) rfl rfl
    -- one turn to go on with, and another one for the stop before the reviews
    have hprogram : Affords (fun _ => 0)
        (r.program (round.world.memory.slotAt t.place).context) (1 + k) :=
      (Pass.affords_program r.retry r.settings _).mono (fun _ => le_rfl) (Nat.le_add_right 1 k)
    refine ⟨_, hleft.seat (a := 1) (s := 0) ht rfl (.awake rfl (.inl hprogram)) rfl ?_ .rfl rfl ?_
      (h.held.set_running ht rfl rfl) ?_⟩
    · simp only [awake, enqueue, setTask, List.filterMap_append, List.append_assoc]
      exact List.perm_middle
    · simp only [starts, enqueue, setTask, List.filterMap_append]
      exact List.append_nil _
    · change m + (1 + k + 1) + 2 * round.world.failures ≤ _
      omega

end Round

/-- **A released pass goes on** to where it stops; what it may do from there is covered. -/
theorem Task.Released.advance {courtesy : Bool} {t : Task} {p : Inquiry (Except Failure PassEnd)}
    {k : Nat} (h : t.Released courtesy p k) (w : World) :
    let stopped := p.advance (Footing.stops courtesy) (Footing.answer t)
      ⟨w, t.patience, t.gaveWay⟩
    ∃ k', Affords (fun _ => 0) stopped.1 k' ∧
      k' + 2 * stopped.2.world.failures ≤ k + 2 * w.failures ∧
      ∀ q next, stopped.1 = .ask q next → Footing.stops courtesy q stopped.2 = true := by
  rcases h with h | ⟨q, next, rfl, hgoes, hnext⟩
  · exact h.advance (fun f : Footing => 2 * f.world.failures) (Footing.grant_answer t) _
  · have hanswer : _ ≤ 2 * w.failures := Footing.grant_answer t q ⟨w, t.patience, t.gaveWay⟩
    obtain ⟨k', hrest, hk', hstops⟩ := (hnext _).advance
      (fun f : Footing => 2 * f.world.failures)
      (Footing.grant_answer t) (Footing.answer t q ⟨w, t.patience, t.gaveWay⟩).2
    simp only [Program.advance, hgoes, Bool.false_eq_true, if_false]
    exact ⟨k', hrest, by omega, hstops⟩

namespace Round

variable {r : Reconciler} {ids : List String} {round : Round} {t : Task}
  {current free : Option Nat} {i n k : Nat}

/-- **A pass has its turn**: it ends, or it goes to sleep or stands aside. -/
theorem Funded.advance {credit : Nat → Nat} {p : Inquiry (Except Failure PassEnd)}
    (h : round.Funded (some i) none ids credit n) (ht : round.tasks[i]? = some t)
    (hp : t.Released round.courtesy p k) :
    ∃ credit', (advance r round i t p).Funded none none ids credit' (n + k) := by
  obtain ⟨k', hrest, hk', hstops⟩ := hp.advance round.world
  unfold Round.advance
  generalize p.advance (Footing.stops round.courtesy) (Footing.answer t)
    ⟨round.world, t.patience, t.gaveWay⟩ = stopped at hrest hk' hstops ⊢
  obtain ⟨rest, f⟩ := stopped
  simp only at hrest hk' hstops ⊢
  split
  · -- it ends, and the next one gets its slot
    rename_i result
    have hclosed : (Reconciler.close t.id t.place t.ticket result f.world).2.failures =
        f.world.failures := by
      unfold Reconciler.close
      split <;> rfl
    generalize Reconciler.close t.id t.place t.ticket result f.world = closed at hclosed
    refine Funded.handOver (Function.update credit i 0) ?_
    refine h.seat (a := 0) (s := 0) ht rfl (.finished rfl) rfl .rfl .rfl rfl rfl
      (h.held.weaken.set ht nofun) ?_
    change n + 0 + 2 * closed.2.failures ≤ _
    omega
  · -- it goes to sleep
    rename_i ms next
    obtain ⟨c, rfl, hnext⟩ := hrest.of_stop rfl
    refine ⟨_, h.seat (a := 0) (s := 1) ht rfl (.asleep rfl (hnext ())) rfl .rfl ?_ rfl rfl
      (h.held.weaken.set_running ht rfl rfl) ?_⟩
    · simp only [sleepers, List.map_append]
      exact List.perm_append_comm
    · change n + (c + 1) + 2 * f.world.failures ≤ _
      omega
  · -- it gives way before it fetches reviews, where a rival may take a ticket
    rename_i next
    obtain ⟨c, rfl, hnext⟩ := hrest.of_stop rfl
    have hreleased (w : World) :
        Footing.stops round.courtesy .reviews ⟨w, patience, true⟩ = false := Bool.and_false _
    refine ⟨_, h.seat (a := 1) (s := 0) ht rfl
      (.awake rfl (.inr ⟨_, _, rfl, hreleased, hnext⟩)) rfl List.perm_middle .rfl rfl rfl
      (h.held.weaken.set_running ht rfl rfl) ?_⟩
    change n + (c + 1) + 2 * (f.world.interruptByRival t.id).failures ≤ _
    rw [World.failures_interruptByRival]
    omega
  · -- its patience is at an end
    rename_i q next hpause hreviews
    obtain rfl : q = .pause 0 := by
      have hstopped := hstops q next rfl
      cases q with
      | pause ms =>
        cases ms with
        | zero => rfl
        | succ ms => exact (hpause ms next rfl .rfl).elim
      | reviews => exact (hreviews next rfl .rfl).elim
      | _ => cases hstopped
    obtain ⟨c, rfl, hnext⟩ := hrest.of_stop rfl
    have hreleased (w : World) :
        Footing.stops round.courtesy (.pause 0) ⟨w, patience, f.gaveWay⟩ = false := rfl
    refine ⟨_, h.seat (a := 1) (s := 0) ht rfl
      (.awake rfl (.inr ⟨_, _, rfl, hreleased, hnext⟩)) rfl List.perm_middle .rfl rfl rfl
      (h.held.weaken.set_running ht rfl rfl) ?_⟩
    change n + (c + 1) + 2 * f.world.failures ≤ _
    omega

theorem Funded.append {credit : Nat → Nat} {m : Nat} (h : round.Funded none none ids credit n)
    (round' : Round) (htasks : round'.tasks = round.tasks ++ [t])
    (hstarts : round.starts = t.id :: round'.starts)
    (hawake : round'.awake = round.awake) (hasleep : round'.sleepers = round.sleepers)
    (hcourtesy : round'.courtesy = round.courtesy)
    (hworld : round'.world.failures = round.world.failures)
    (ht : t.stage = .waiting → ∃ u ∈ round.tasks, u.place = t.place ∧ u.isFinished = false)
    (hm : n = m + 3) :
    round'.Funded (some round.tasks.length) none ids
      (Function.update credit round.tasks.length 0) m where
  standing := by
    rw [htasks, hawake, hasleep, hcourtesy]
    refine ⟨fun j u hu hj => ?_, fun j hj => ?_, fun j hj => ?_⟩
    · have hne : j ≠ round.tasks.length := fun heq => hj (congrArg some heq.symm)
      have hlt : j < round.tasks.length := by
        have := (List.getElem?_eq_some_iff.mp hu).1
        rw [List.length_append, List.length_singleton] at this
        omega
      rw [List.getElem?_append_left hlt] at hu
      rw [Function.update_of_ne hne]
      exact h.standing.stands j u hu nofun
    · have hlt := (h.standing.known j hj).1
      rw [List.length_append]
      exact ⟨by omega, fun heq => by
        obtain rfl := Option.some.inj heq
        exact lt_irrefl _ hlt⟩
    · obtain rfl := Option.some.inj hj
      rw [List.length_append, List.length_singleton]
      exact ⟨by omega, Function.update_self _ _ _⟩
  held := by
    rw [htasks]
    exact h.held.append ht
  ids := by
    rw [htasks, List.map_append, List.append_assoc, ← h.ids, hstarts]
    rfl
  sum := by
    have hrest : ∑ j ∈ Finset.range round.tasks.length,
        Function.update credit round.tasks.length 0 j =
          ∑ j ∈ Finset.range round.tasks.length, credit j := by
      refine Finset.sum_congr rfl fun j hj => ?_
      exact Function.update_of_ne (Finset.mem_range.mp hj).ne _ _
    have := h.sum
    rw [hstarts, List.length_cons] at this
    rw [htasks, List.length_append, List.length_singleton, Finset.sum_range_succ, hrest,
      Function.update_self, hworld]
    omega

/-- **A pass starts**: it waits for its slot, or has its first turn. -/
theorem Funded.begin {credit : Nat → Nat} {id : String} {queue : List Turn}
    (h : round.Funded none none ids credit n) (hqueue : round.queue = .start id :: queue)
    (left : Nat) :
    ∃ credit' m, m < n ∧ (begin r { round with queue := queue, turnsLeft := left } id).Funded
      none none ids credit' m := by
  have hstarts : round.starts = id :: queue.filterMap Turn.started? := by
    rw [starts, hqueue]
    rfl
  have hawake : queue.filterMap Turn.resumed? ++ round.aside = round.awake := by
    rw [awake, hqueue]
    rfl
  obtain ⟨m, rfl⟩ : ∃ m, n = m + 3 := by
    have := h.sum
    rw [hstarts, List.length_cons] at this
    exact ⟨n - 3, by omega⟩
  have hlast (t : Task) : (round.tasks ++ [t])[round.tasks.length]? = some t :=
    List.getElem?_concat_length
  have hset (t : Task) : round.tasks ++ [t] = (round.tasks ++ [t]).set round.tasks.length t := by
    simp
  have happended (t : Task) (hid : t.id = id) (memory : Memory)
      (ht : t.stage = .waiting → ∃ u ∈ round.tasks, u.place = t.place ∧ u.isFinished = false) :=
    h.append (t := t)
      { round with
        world := { round.world with memory := memory }
        tasks := round.tasks ++ [t]
        queue := queue
        turnsLeft := left } rfl (hid ▸ hstarts) hawake rfl rfl rfl ht rfl
  unfold Round.begin
  simp only
  generalize round.world.memory.locate id = located
  obtain ⟨place, memory⟩ := located
  simp only
  split
  · -- it waits for a pass that has not ended
    rename_i hbusy
    obtain ⟨u, hu, hbusy⟩ := List.any_eq_true.mp hbusy
    rw [Bool.and_eq_true, Bool.not_eq_true', beq_iff_eq] at hbusy
    have hwaiting := happended
      ⟨id, place, (memory.takeTicket place).1, .waiting, firstPatience, false⟩ rfl
      (memory.takeTicket place).2 fun _ => ⟨u, hu, hbusy⟩
    exact ⟨_, m + 2, by omega, hwaiting.seat (a := 0) (s := 0) (hlast _) (hset _)
      (.waiting rfl le_rfl) rfl .rfl .rfl rfl rfl hwaiting.held le_rfl⟩
  · have hrunning := happended
      ⟨id, place, (memory.takeTicket place).1,
        .running (r.program ((memory.takeTicket place).2.slotAt place).context), firstPatience,
        false⟩ rfl (memory.takeTicket place).2 nofun
    obtain ⟨credit', hadvanced⟩ := hrunning.advance (r := r) (hlast _)
      (.inl (Pass.affords_program r.retry r.settings _))
    exact ⟨credit', m + 1, by omega, hadvanced⟩

/-- **The next turn** lowers the account. -/
theorem Funded.take {credit : Nat → Nat} {turn : Turn} {queue : List Turn}
    (h : round.Funded none none ids credit n) (hqueue : round.queue = turn :: queue) (left : Nat) :
    ∃ credit' m, m < n ∧ (take r { round with queue := queue, turnsLeft := left } turn).Funded
      none none ids credit' m := by
  cases turn with
  | start id => exact h.begin hqueue left
  | resume i =>
    have hawake : round.awake = i :: (queue.filterMap Turn.resumed? ++ round.aside) := by
      rw [awake, hqueue]
      rfl
    have hstanding := h.standing
    rw [hawake] at hstanding
    obtain ⟨t, p, k, ht, hstage, hcredit, hp, hrest⟩ := hstanding.leave_awake
    obtain ⟨m, hm, hleft⟩ := h.leave
      { round with queue := queue, turnsLeft := left } rfl hrest
      (by rw [starts, starts, hqueue]; rfl) rfl
    obtain ⟨credit', hadvanced⟩ := hleft.advance ht hp
    rw [Round.take]
    simp only [ht, hstage]
    exact ⟨credit', m + k, by omega, hadvanced⟩

/-! ### Between the turns -/

theorem map_id_wakeTask (tasks : List Task) (i : Nat) :
    (wakeTask tasks i).map (·.id) = tasks.map (·.id) := by
  unfold wakeTask
  split
  · rfl
  · rename_i t ht
    split
    · exact map_id_set ht rfl
    · rfl

theorem wake_tasks (is : List Nat) {tasks : List Task} (h : Held none tasks) :
    Held none (is.foldl wakeTask tasks) ∧
      (is.foldl wakeTask tasks).map (·.id) = tasks.map (·.id) := by
  induction is generalizing tasks with
  | nil => exact ⟨h, rfl⟩
  | cons i is ih => exact (ih (h.wake i)).imp_right fun hids => hids.trans (map_id_wakeTask tasks i)

theorem Funded.wakeAt {credit : Nat → Nat} (h : round.Funded none none ids credit n)
    (hqueue : round.queue = []) (time : Nat) :
    (round.wakeAt time).Funded none none ids credit n := by
  obtain ⟨hheld, hids⟩ : Held none (round.wakeAt time).tasks ∧
      (round.wakeAt time).tasks.map (·.id) = round.tasks.map (·.id) := wake_tasks _ h.held
  have hsplit : round.sleepers.Perm ((round.asleep.filter fun s => s.1 == time).map (·.2) ++
      (round.asleep.filter fun s => s.1 != time).map (·.2)) := by
    rw [sleepers, ← List.map_append]
    exact (List.filter_append_perm _ _).symm.map _
  have hawake : (round.wakeAt time).awake =
      (round.asleep.filter fun s => s.1 == time).map (·.2) ++ round.awake := by
    simp only [awake, Round.wakeAt, hqueue, Turn.filterMap_resumed?, List.filterMap_nil,
      List.nil_append]
  have hstarts : (round.wakeAt time).starts = round.starts := by
    simp only [starts, Round.wakeAt, hqueue, Turn.filterMap_started?, List.filterMap_nil]
  have hlength : (round.wakeAt time).tasks.length = round.tasks.length := by
    have := congrArg List.length hids
    rwa [List.length_map, List.length_map] at this
  have hstanding := (h.standing.congr .rfl hsplit.symm).wake_all
  refine ⟨hawake ▸ hstanding, hheld, ?_, ?_⟩
  · rw [hstarts, hids]
    exact h.ids
  · rw [hlength, hstarts]
    exact h.sum

theorem Funded.bringBack {credit : Nat → Nat} (h : round.Funded none none ids credit n) :
    round.bringBack.Funded none none ids credit n := by
  have hawake : round.bringBack.awake = round.awake := by
    simp only [awake, Round.bringBack, List.filterMap_append, Turn.filterMap_resumed?,
      List.append_nil]
  have hstarts : round.bringBack.starts = round.starts := by
    simp only [starts, Round.bringBack, List.filterMap_append, Turn.filterMap_started?,
      List.append_nil]
  refine ⟨hawake ▸ h.standing, h.held, ?_, ?_⟩
  · rw [hstarts]
    exact h.ids
  · rw [hstarts]
    exact h.sum

/-! ### Whole rounds -/

/-- Whether something else than a turn comes next. -/
def heldUp (round : Round) : Bool := round.queue.isEmpty || round.turnsLeft == 0

/-- Who has come back has the next turn. -/
theorem heldUp_eq_false (hqueue : round.queue ≠ []) (hleft : round.turnsLeft = turnsInARow) :
    round.heldUp = false := by
  rw [heldUp, hleft, List.isEmpty_eq_false_iff.mpr hqueue]
  rfl

/-- A round in which nobody is awake or asleep is over. -/
theorem Funded.isFinished {credit : Nat → Nat} (h : round.Funded none none ids credit n)
    (hqueue : round.queue = []) (haside : round.aside = []) (hasleep : round.asleep = []) :
    round.tasks.map (·.id) = ids ∧ ∀ t ∈ round.tasks, t.isFinished = true := by
  have hnobody (t : Task) (ht : t ∈ round.tasks) (p : Inquiry (Except Failure PassEnd)) :
      t.stage ≠ .running p := by
    intro hstage
    obtain ⟨i, hi⟩ := List.getElem?_of_mem ht
    have hlisted := (h.standing.stands i t hi nofun).of_running hstage
    simp only [awake, sleepers, hqueue, haside, hasleep, List.filterMap_nil, List.map_nil,
      List.append_nil, List.count_nil] at hlisted
    exact lt_irrefl _ hlisted
  constructor
  · have := h.ids
    rwa [starts, hqueue, List.filterMap_nil, List.append_nil] at this
  · intro t ht
    cases hstage : t.stage with
    | running p => exact absurd hstage (hnobody t ht p)
    | finished result => rw [Task.isFinished, hstage]
    | waiting =>
      obtain ⟨u, hu, -, p, hruns⟩ := h.held t ht hstage nofun
      exact absurd hruns (hnobody u hu p)

/-- **Enough steps end a round.** -/
theorem Funded.runFor {credit : Nat → Nat} {m : Nat} (h : round.Funded none none ids credit n)
    (hm : 2 * n + (if round.heldUp then 1 else 0) ≤ m) :
    (runFor r m round).tasks.map (·.id) = ids ∧
      ∀ t ∈ (runFor r m round).tasks, t.isFinished = true := by
  -- on the steps that are left; a turn costs two of them, as another step may have to come first
  induction m generalizing round credit n with
  | zero =>
    cases hqueue : round.queue with
    | nil => simp [heldUp, hqueue] at hm
    | cons turn queue =>
      obtain ⟨credit', n', hn', -⟩ := h.take (r := r) hqueue 0
      omega
  | succ m ih =>
    -- what is no turn is followed by one
    have hnext {next : Round} (h : next.Funded none none ids credit n)
        (hbefore : round.heldUp = true) (hafter : next.heldUp = false) :
        (Round.runFor r m next).tasks.map (·.id) = ids ∧
          ∀ t ∈ (Round.runFor r m next).tasks, t.isFinished = true := by
      refine ih h ?_
      simp only [hbefore, hafter, if_true, Bool.false_eq_true, if_false] at hm ⊢
      omega
    unfold Round.runFor
    split
    · -- the next turn of the queue
      rename_i turn queue left hqueue hleft
      obtain ⟨credit', n', hn', hrest⟩ := h.take (r := r) hqueue left
      refine ih hrest ?_
      split <;> omega
    · rename_i hqueue
      have hbefore : round.heldUp = true := by
        rw [heldUp, hqueue]
        rfl
      split
      · rename_i haside
        split
        · rename_i hmin
          have hasleep : round.asleep = [] := by simpa using hmin
          exact h.isFinished hqueue (List.isEmpty_iff.mp haside) hasleep
        · -- the clock moves on to where somebody wakes
          rename_i time hmin
          refine hnext (h.wakeAt hqueue time) hbefore ?_
          obtain ⟨s, hs, rfl⟩ := List.mem_map.mp (List.min?_mem hmin)
          have hmem : s ∈ round.asleep.filter fun s' => s'.1 == s.1 :=
            List.mem_filter.mpr ⟨hs, beq_self_eq_true _⟩
          exact heldUp_eq_false (List.ne_nil_of_mem
            (List.mem_map_of_mem (List.mem_map_of_mem hmem))) rfl
      · rename_i haside
        refine hnext h.bringBack hbefore (heldUp_eq_false ?_ rfl)
        simpa [Round.bringBack, hqueue] using haside
    · rename_i hleft hqueue
      refine hnext h.bringBack ?_ (heldUp_eq_false ?_ rfl)
      · rw [heldUp, hleft, Bool.or_eq_true]
        exact .inr rfl
      · exact fun hnil => hqueue (List.append_eq_nil_iff.mp hnil).1

/-- The round of a run, when it has ended. -/
def ended (r : Reconciler) (courtesy : Bool) (ids : List String) (w : World) : Round :=
  runFor r (steps ids w) ⟨w, [], ids.map .start, turnsInARow, [], [], courtesy⟩

theorem funded_start (courtesy : Bool) (ids : List String) (w : World) :
    Funded none none ids (fun _ => 0) (3 * ids.length + 2 * w.failures)
      ⟨w, [], ids.map .start, turnsInARow, [], [], courtesy⟩ := by
  have hawake : (ids.map Turn.start).filterMap Turn.resumed? = [] := by
    rw [List.filterMap_map]
    exact List.filterMap_eq_nil_iff.mpr fun _ _ => rfl
  have hstarts : (ids.map Turn.start).filterMap Turn.started? = ids := by
    rw [List.filterMap_map]
    exact List.filterMap_some
  refine ⟨⟨fun i t ht => ?_, fun i hi => ?_, nofun⟩, fun t ht => absurd ht List.not_mem_nil, ?_, ?_⟩
  · simp at ht
  · simp [awake, sleepers, hawake] at hi
  · rw [starts, hstarts]
    rfl
  · simp [starts, hstarts]

/-- **Every pass of a round ends**, and there is one for each of the identifiers, in their order. -/
theorem isFinished_ended (r : Reconciler) (courtesy : Bool) (ids : List String) (w : World) :
    (ended r courtesy ids w).tasks.map (·.id) = ids ∧
      ∀ t ∈ (ended r courtesy ids w).tasks, t.isFinished = true := by
  have hfailures : w.failures ≤ w.faults.length + 1 := by
    unfold World.failures
    cases w.interruptions.postFailure <;> simp
  refine (funded_start courtesy ids w).runFor ?_
  rw [steps]
  split <;> omega

/-- **A round has as many results as passes.** -/
theorem length_run (r : Reconciler) (courtesy : Bool) (ids : List String) (w : World) :
    (run r courtesy ids w).1.length = ids.length := by
  obtain ⟨hids, hfinished⟩ := isFinished_ended r courtesy ids w
  have hlength : (ended r courtesy ids w).tasks.length = ids.length := by
    rw [← congrArg List.length hids, List.length_map]
  rw [← hlength]
  refine List.filterMap_length_eq_length.mpr fun t ht => ?_
  have := hfinished t ht
  unfold Task.isFinished at this
  split at this
  · rfl
  · cases this

end Round

end ReviewQuorum
