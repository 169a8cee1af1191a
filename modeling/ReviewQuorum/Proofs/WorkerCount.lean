import ReviewQuorum.Proofs.PollSet
import ReviewQuorum.Proofs.RoundEnd

/-! # What a worker counts

A worker that is told to end after some ticks carries out that many, unless it is shut down before,
and it counts every pass: those completed, superseded and failed make up the passes over the change
requests that were tracked when the ticks began (`worker_accounts`). It does not matter why the
worker wakes, what happens while it waits, how passes end and in which order.

What a run meets is written down beside its state (`Worker.Recorded`), which changes nothing about
the run (`Worker.run_recorded`). One wake-up keeps the totals in step with the record
(`Worker.Tallied.ticked`), and so does a run (`Worker.tallied_record`). About a tick no more is
assumed than that it counts each tracked change request once (`Worker.Covers`), as a round does,
whose passes all end (`Watch.covers_tick`). On a watch nobody but the worker acts, so its passes are
as many as its ticks times the tracked change requests (`Watch.total_run`).

The limit is looked at after a tick. So one tick is carried out even if none was asked for
(`one_tick_of_none`). -/

namespace ReviewQuorum

/-! ### Counts -/

namespace PassCounts

theorem total_add (a b : PassCounts) : (a.add b).total = a.total + b.total := by
  simp only [add, total]
  omega

theorem total_count (c : PassCounts) (result : Except Failure PassResult) :
    (c.count result).total = c.total + 1 := by
  unfold count
  split
  all_goals
    simp only [total]
    omega

/-- **Every result is counted once.** -/
theorem total_ofResults (results : List (Except Failure PassResult)) :
    (ofResults results).total = results.length := by
  have hfold (c : PassCounts) : (results.foldl count c).total = c.total + results.length := by
    induction results generalizing c with
    | nil => rfl
    | cons result results ih =>
      rw [List.foldl_cons, ih, total_count, List.length_cons]
      omega
  exact (hfold {}).trans (Nat.zero_add _)

end PassCounts

/-! ### Ticks -/

/-- **A tick that runs a pass over every tracked change request**: it counts one result for each of
them, in whatever order the passes end. A pass that breaks down counts as one that fails. -/
def Worker.Covers {σ : Type} (tracked : σ → List String) (tick : σ → PassCounts × σ) : Prop :=
  ∀ s, ∃ ends : List (String × Except Failure PassResult),
    (ends.map (·.1)).Perm (tracked s) ∧ (tick s).1 = .ofResults (ends.map (·.2))

theorem Worker.Covers.total {σ : Type} {tracked : σ → List String} {tick : σ → PassCounts × σ}
    (h : Covers tracked tick) (s : σ) : (tick s).1.total = (tracked s).length := by
  obtain ⟨ends, hperm, hcounts⟩ := h s
  rw [hcounts, PassCounts.total_ofResults, ← hperm.length_eq, List.length_map, List.length_map]

/-- The change requests that are tracked. -/
def Watch.tracked (watch : Watch) : List String := watch.world.memory.trackedIds

theorem Watch.covers_tick (r : Reconciler) : Worker.Covers Watch.tracked (Watch.tick r) := by
  intro watch
  have hlength := Round.length_run r false watch.tracked watch.world
  refine ⟨watch.tracked.zip (Round.run r false watch.tracked watch.world).1, ?_, ?_⟩
  · rw [List.map_fst_zip hlength.ge]
  · rw [List.map_snd_zip hlength.le]
    rfl

/-! ### Runs -/

namespace Worker

variable {σ : Type}

/-- A state, with the wake-ups so far and the states that they have led to. -/
structure Recorded (σ : Type) where
  state : σ
  wakes : List (Wake × σ)

namespace Recorded

/-- Waits for the next wake-up and writes it down. -/
def next (next : σ → Wake × σ) (h : Recorded σ) : Wake × Recorded σ :=
  let (wake, s) := next h.state
  (wake, ⟨s, h.wakes ++ [(wake, s)]⟩)

/-- Carries a tick out. -/
def tick (tick : σ → PassCounts × σ) (h : Recorded σ) : PassCounts × Recorded σ :=
  let (counts, s) := tick h.state
  (counts, ⟨s, h.wakes⟩)

end Recorded

/-- A run from a state, with all its wake-ups written down. -/
def record (limit : Option Nat) (next : σ → Wake × σ) (tick : σ → PassCounts × σ) (n : Nat)
    (s : σ) : WorkerTotals × Recorded σ :=
  run limit (Recorded.next next) (Recorded.tick tick) n {} ⟨s, []⟩

/-- Writing wake-ups down does not change a run. -/
theorem run_recorded (limit : Option Nat) (next : σ → Wake × σ) (tick : σ → PassCounts × σ)
    (n : Nat) (totals : WorkerTotals) (h : Recorded σ) :
    let recorded := run limit (Recorded.next next) (Recorded.tick tick) n totals h
    run limit next tick n totals h.state = (recorded.1, recorded.2.state) := by
  induction n generalizing totals h with
  | zero => rfl
  | succ n ih =>
    simp only [run, Recorded.next]
    split
    · rename_i s hnext
      simp only [hnext]
    · rename_i s hnext
      simp only [hnext, Recorded.tick]
      split
      · rfl
      · exact ih _ ⟨(tick s).2, h.wakes ++ [(.tick, s)]⟩

/-- The states in which ticks began. -/
def begun (wakes : List (Wake × σ)) : List σ :=
  wakes.filterMap fun w =>
    match w.1 with
    | .tick => some w.2
    | .shutdown => none

/-- Whether a shutdown is among wake-ups. -/
def ShutDown (wakes : List (Wake × σ)) : Prop := ∃ w ∈ wakes, w.1 = .shutdown

instance (wakes : List (Wake × σ)) : Decidable (ShutDown wakes) :=
  inferInstanceAs (Decidable (∃ w ∈ wakes, w.1 = .shutdown))

theorem begun_shutdown (wakes : List (Wake × σ)) (s : σ) :
    begun (wakes ++ [(.shutdown, s)]) = begun wakes := by
  rw [begun, List.filterMap_append]
  exact List.append_nil _

theorem begun_tick (wakes : List (Wake × σ)) (s : σ) :
    begun (wakes ++ [(.tick, s)]) = begun wakes ++ [s] := by
  rw [begun, List.filterMap_append]
  rfl

/-- **Totals that account for wake-ups**: one for every tick, and a pass for every change request
that was tracked when a tick began. -/
structure Tallied (tracked : σ → List String) (wakes : List (Wake × σ)) (totals : WorkerTotals) :
    Prop where
  ticks : totals.ticks = (begun wakes).length
  passes : totals.passes.total = ((begun wakes).map fun s => (tracked s).length).sum

variable {tracked : σ → List String} {next : σ → Wake × σ} {tick : σ → PassCounts × σ}
  {wakes : List (Wake × σ)} {totals : WorkerTotals} {s : σ}

theorem Tallied.shutdown (h : Tallied tracked wakes totals) (s : σ) :
    Tallied tracked (wakes ++ [(.shutdown, s)]) totals :=
  ⟨by rw [begun_shutdown, h.ticks], by rw [begun_shutdown, h.passes]⟩

/-- **One tick** is counted, and so are its passes. -/
theorem Tallied.ticked (h : Tallied tracked wakes totals) (hcovers : Covers tracked tick) (s : σ) :
    Tallied tracked (wakes ++ [(.tick, s)])
      ⟨totals.ticks + 1, totals.passes.add (tick s).1⟩ := by
  constructor
  · rw [begun_tick, List.length_append, ← h.ticks]
    rfl
  · rw [begun_tick, PassCounts.total_add, h.passes, hcovers.total, List.map_append, List.sum_append]
    rfl

/-- **What every wake-up keeps is kept by a run.** -/
theorem run_keeps {I : WorkerTotals → Recorded σ → Prop} {limit : Option Nat}
    (hshutdown : ∀ totals h s, I totals h → next h.state = (.shutdown, s) →
      I totals ⟨s, h.wakes ++ [(.shutdown, s)]⟩)
    (htick : ∀ totals h s, I totals h → next h.state = (.tick, s) →
      I ⟨totals.ticks + 1, totals.passes.add (tick s).1⟩
        ⟨(tick s).2, h.wakes ++ [(.tick, s)]⟩)
    (n : Nat) {h : Recorded σ} (hstart : I totals h) :
    let recorded := run limit (Recorded.next next) (Recorded.tick tick) n totals h
    I recorded.1 recorded.2 := by
  induction n generalizing totals h with
  | zero => exact hstart
  | succ n ih =>
    simp only [run, Recorded.next]
    cases hnext : next h.state with
    | mk wake s =>
      cases wake with
      | shutdown => exact hshutdown _ _ _ hstart hnext
      | tick =>
        have hticked := htick _ _ _ hstart hnext
        simp only [Recorded.tick]
        split
        · exact hticked
        · exact ih hticked

/-- **A run keeps its totals in step** with its wake-ups. -/
theorem tallied_record (hcovers : Covers tracked tick) (limit : Option Nat) (n : Nat) (s : σ) :
    Tallied tracked (record limit next tick n s).2.wakes (record limit next tick n s).1 :=
  run_keeps (I := fun totals h => Tallied tracked h.wakes totals) (h := ⟨s, []⟩)
    (fun _ _ s h _ => h.shutdown s) (fun _ _ s h _ => h.ticked hcovers s) n ⟨rfl, rfl⟩

/-- **A run goes on up to its limit**, unless it is shut down. -/
theorem ticks_run {m n : Nat} {h : Recorded σ} (hless : totals.ticks < max m 1)
    (hn : max m 1 ≤ totals.ticks + n) :
    let recorded := run (some m) (Recorded.next next) (Recorded.tick tick) n totals h
    ¬ ShutDown recorded.2.wakes → recorded.1.ticks = max m 1 := by
  induction n generalizing totals h with
  | zero => omega
  | succ n ih =>
    simp only [run, Recorded.next]
    obtain ⟨wake, s⟩ := next h.state
    cases wake with
    | shutdown =>
      intro hgoes
      exact absurd ⟨(.shutdown, s), List.mem_append_right _ List.mem_cons_self, rfl⟩ hgoes
    | tick =>
      simp only [Recorded.tick, Option.any_some]
      split
      · rename_i hlimit
        have hlimit := of_decide_eq_true hlimit
        intro _
        simp only
        omega
      · rename_i hlimit
        have hlimit : ¬ m ≤ totals.ticks + 1 := by simpa using hlimit
        exact ih (by simp only; omega) (by simp only; omega)

theorem forall_begun {P : σ → Prop} {limit : Option Nat} (hnext : ∀ s, P s → P (next s).2)
    (htick : ∀ s, P s → P (tick s).2) (n : Nat) (hs : P s) :
    ∀ s' ∈ begun (record limit next tick n s).2.wakes, P s' := by
  have hwoken {s s' : σ} {wake : Wake} (hs : P s) (heq : next s = (wake, s')) : P s' := by
    have := hnext s hs
    rwa [heq] at this
  have hstart : P s ∧ ∀ s' ∈ begun ([] : List (Wake × σ)), P s' :=
    ⟨hs, fun _ h => absurd h List.not_mem_nil⟩
  refine (run_keeps (I := fun _ h => P h.state ∧ ∀ s' ∈ begun h.wakes, P s') (h := ⟨s, []⟩)
    (fun _ h s hI heq => ?_) (fun _ h s hI heq => ?_) n hstart).2
  · rw [begun_shutdown]
    exact ⟨hwoken hI.1 heq, hI.2⟩
  · refine ⟨htick s (hwoken hI.1 heq), fun s' hs' => ?_⟩
    rw [begun_tick] at hs'
    rcases List.mem_append.mp hs' with hs' | hs'
    · exact hI.2 s' hs'
    · exact List.mem_singleton.mp hs' ▸ hwoken hI.1 heq

/-- **A run that keeps its limit and accounts for its passes**, with its wake-ups written down: it
counts its ticks and a pass for every change request tracked when one begins, and unless it is shut
down, the ticks are as many as its limit says, or one if that is none. -/
structure Accounts (tracked : σ → List String) (m : Nat) (wakes : List (Wake × σ))
    (totals : WorkerTotals) : Prop extends Tallied tracked wakes totals where
  limit : ¬ ShutDown wakes → totals.ticks = max m 1

theorem Accounts.exact_iff {m : Nat} (h : Accounts tracked m wakes totals)
    (hgoes : ¬ ShutDown wakes) : totals.ticks = m ↔ 1 ≤ m := by
  rw [h.limit hgoes]
  omega

theorem fst_record (limit : Option Nat) (next : σ → Wake × σ) (tick : σ → PassCounts × σ) (n : Nat)
    (s : σ) : (record limit next tick n s).1 = (run limit next tick n {} s).1 :=
  (congrArg Prod.fst (run_recorded limit next tick n {} ⟨s, []⟩)).symm

theorem accounts_record (hcovers : Covers tracked tick) {m n : Nat} (hn : max m 1 ≤ n) (s : σ) :
    Accounts tracked m (record (some m) next tick n s).2.wakes (record (some m) next tick n s).1 :=
  ⟨tallied_record hcovers (some m) n s, ticks_run (by simp) (by simpa using hn)⟩

/-- **Where the same change requests stay tracked**, a run counts as many passes for each tick. -/
theorem total_run_of_steady (hcovers : Covers tracked tick)
    (hnext : ∀ s, tracked (next s).2 = tracked s) (htick : ∀ s, tracked (tick s).2 = tracked s)
    (limit : Option Nat) (n : Nat) (s : σ) : (run limit next tick n {} s).1.passes.total =
      (run limit next tick n {} s).1.ticks * (tracked s).length := by
  have hbegun : ∀ s' ∈ begun (record limit next tick n s).2.wakes, tracked s' = tracked s :=
    forall_begun (fun s' h => (hnext s').trans h) (fun s' h => (htick s').trans h) n rfl
  have htallied : Tallied tracked (record limit next tick n s).2.wakes
      (record limit next tick n s).1 := tallied_record hcovers limit n s
  have hsum : (begun (record limit next tick n s).2.wakes).map (fun s' => (tracked s').length) =
      List.replicate (begun (record limit next tick n s).2.wakes).length (tracked s).length :=
    List.eq_replicate_iff.mpr ⟨List.length_map _, fun k hk => by
      obtain ⟨s', hs', rfl⟩ := List.mem_map.mp hk
      rw [hbegun s' hs']⟩
  rw [← fst_record, htallied.passes, hsum, List.sum_replicate_nat, htallied.ticks]

end Worker

/-- A run on a watch, with its wake-ups written down. -/
def Watch.record (r : Reconciler) (limit : Option Nat) (watch : Watch) :
    WorkerTotals × Worker.Recorded Watch :=
  Worker.record limit next (tick r) (watch.wakeUps limit) watch

theorem Watch.fst_record (r : Reconciler) (limit : Option Nat) (watch : Watch) :
    (watch.record r limit).1 = (watch.run r limit).1 := Worker.fst_record limit _ _ _ watch

/-- **Nobody but the worker itself acts on a watch**, so that every tick is over the same change
requests. -/
theorem Watch.total_run (r : Reconciler) (limit : Option Nat) (watch : Watch) :
    (watch.run r limit).1.passes.total = (watch.run r limit).1.ticks * watch.tracked.length := by
  refine Worker.total_run_of_steady (covers_tick r) (fun watch' => ?_)
    (fun watch' => r.trackedIds_tick watch'.world) limit _ watch
  unfold next
  simp only
  split_ifs <;> rfl

/-- **A worker keeps to its limit and accounts for every pass.** It runs against anything that wakes
it and anything that happens while it waits, with ticks that count one result for each tracked
change request; a worker on a watch is one of them. Unless it is shut down, its ticks are exactly as
many as the limit says iff that is not none. -/
theorem worker_accounts (m : Nat) :
    (∀ {σ : Type} (next : σ → Wake × σ) (tick : σ → PassCounts × σ) (tracked : σ → List String),
      Worker.Covers tracked tick → ∀ n, max m 1 ≤ n → ∀ s : σ,
        let recorded := Worker.record (some m) next tick n s
        let totals := (Worker.run (some m) next tick n {} s).1
        recorded.1 = totals ∧ Worker.Accounts tracked m recorded.2.wakes totals ∧
          (¬ Worker.ShutDown recorded.2.wakes → (totals.ticks = m ↔ 1 ≤ m))) ∧
    ∀ (r : Reconciler) (watch : Watch),
      let recorded := watch.record r (some m)
      let totals := (watch.run r (some m)).1
      recorded.1 = totals ∧ Worker.Accounts Watch.tracked m recorded.2.wakes totals ∧
        (¬ Worker.ShutDown recorded.2.wakes → (totals.ticks = m ↔ 1 ≤ m)) := by
  constructor
  · intro σ next tick tracked hcovers n hn s recorded totals
    have hsame : recorded.1 = totals := Worker.fst_record _ _ _ _ s
    have haccounts : Worker.Accounts tracked m recorded.2.wakes totals :=
      hsame ▸ Worker.accounts_record hcovers hn s
    exact ⟨hsame, haccounts, haccounts.exact_iff⟩
  · intro r watch recorded totals
    have hn : max m 1 ≤ watch.wakeUps (some m) := by
      rw [Watch.wakeUps]
      omega
    have hsame : recorded.1 = totals := watch.fst_record r _
    have haccounts : Worker.Accounts Watch.tracked m recorded.2.wakes totals :=
      hsame ▸ Worker.accounts_record (Watch.covers_tick r) hn watch
    exact ⟨hsame, haccounts, haccounts.exact_iff⟩

/-- A watch over two change requests that the forge does not know, with a trigger lined up. -/
def strayWatch : Watch :=
  .start { emptyWorld with memory := (Memory.empty.track "1").track "2" } 1000 1 none

/-- Two ticks, for the trigger and for the interval: four passes, and all of them fail. -/
theorem worker_accounts_strayWatch :
    (Worker.Covers Watch.tracked (Watch.tick (.ofSettings {})) ∧
      max 2 1 ≤ strayWatch.wakeUps (some 2) ∧
      ¬ Worker.ShutDown (strayWatch.record (.ofSettings {}) (some 2)).2.wakes) ∧
    (strayWatch.run (.ofSettings {}) (some 2)).1.ticks = 2 ∧
    (strayWatch.run (.ofSettings {}) (some 2)).1.passes = ⟨0, 0, 4⟩ := by
  have hcovers := Watch.covers_tick (.ofSettings {})
  have hgoes : ¬ Worker.ShutDown (strayWatch.record (.ofSettings {}) (some 2)).2.wakes := by
    decide +kernel
  obtain ⟨-, haccounts, -⟩ :=
    (worker_accounts 2).1 Watch.next (Watch.tick (.ofSettings {})) Watch.tracked hcovers
      (strayWatch.wakeUps (some 2)) (by decide) strayWatch
  exact ⟨⟨hcovers, by decide, hgoes⟩, haccounts.limit hgoes, by decide +kernel⟩

/-- A worker that is told to end after no ticks carries one out. -/
theorem one_tick_of_none :
    let watch : Watch := .start emptyWorld 1000 0 none
    ¬ Worker.ShutDown (watch.record (.ofSettings {}) (some 0)).2.wakes ∧
      (watch.run (.ofSettings {}) (some 0)).1.ticks = 1 := by
  decide +kernel

end ReviewQuorum
