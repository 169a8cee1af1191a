import ReviewQuorum.Round

/-! # The poll worker

A worker ticks: it runs a pass over every tracked change request, side by side, and counts how they
end. It wakes for a tick at once, then at every interval and for every trigger, and ends at a
shutdown or after a number of ticks. The number is looked at after a tick, so there is one tick at
least. A tick that takes long does not lose the wake-ups that it covers.

How a worker runs depends on what wakes it and on what a tick does, and both are parameters of
`Worker.run`. A `Watch` is one way to wake it, and a `Round` one way to carry a tick out. -/

namespace ReviewQuorum

/-- How passes have ended. -/
structure PassCounts where
  completed : Nat := 0
  superseded : Nat := 0
  failed : Nat := 0
deriving DecidableEq, Inhabited

namespace PassCounts

/-- The sum of two counts. -/
def add (a b : PassCounts) : PassCounts :=
  ⟨a.completed + b.completed, a.superseded + b.superseded, a.failed + b.failed⟩

/-- All passes. -/
def total (c : PassCounts) : Nat := c.completed + c.superseded + c.failed

/-- Counts one more pass. -/
def count (c : PassCounts) : Except Failure PassResult → PassCounts
  | .ok (.completed _) => { c with completed := c.completed + 1 }
  | .ok (.superseded _) => { c with superseded := c.superseded + 1 }
  | .error _ => { c with failed := c.failed + 1 }

/-- Counts passes. -/
def ofResults (results : List (Except Failure PassResult)) : PassCounts := results.foldl count {}

end PassCounts

/-- What a worker has done. -/
structure WorkerTotals where
  ticks : Nat := 0
  passes : PassCounts := {}
deriving DecidableEq, Inhabited

/-- Why a worker wakes. -/
inductive Wake
  | tick
  | shutdown
deriving DecidableEq

namespace Worker

variable {σ : Type}

/-- Runs a worker for so many wake-ups at most. `next` waits for the next wake-up, `tick` carries a
tick out. -/
def run (limit : Option Nat) (next : σ → Wake × σ) (tick : σ → PassCounts × σ) :
    Nat → WorkerTotals → σ → WorkerTotals × σ
  | 0, totals, s => (totals, s)
  | n + 1, totals, s =>
    match next s with
    | (.shutdown, s) => (totals, s)
    | (.tick, s) =>
      let (counts, s) := tick s
      let totals : WorkerTotals := ⟨totals.ticks + 1, totals.passes.add counts⟩
      if limit.any (· ≤ totals.ticks) then (totals, s) else run limit next tick n totals s

end Worker

/-- Runs a pass over every tracked change request, on the schedule of a round. -/
def Reconciler.tick (r : Reconciler) (w : World) : PassCounts × World :=
  let (results, w) := Round.run r false w.memory.trackedIds w
  (.ofResults results, w)

/-- A world with the wake-ups that a worker waits for: triggers that are lined up, the next interval
and a shutdown, in milliseconds of the clock. -/
structure Watch where
  world : World
  interval : Nat
  deadline : Nat
  triggers : Nat
  shutdownAt : Option Nat

namespace Watch

/-- The watch that begins now. -/
def start (w : World) (interval triggers : Nat) (shutdownAfter : Option Nat) : Watch :=
  ⟨w, w.waited interval, w.clock, triggers, shutdownAfter.map fun ms => w.clock + w.waited ms⟩

/-- Moves the clock on, unless it is past the time already. -/
def waitUntil (watch : Watch) (time : Nat) : Watch :=
  { watch with world := { watch.world with clock := max watch.world.clock time } }

/-- Waits for the next wake-up. Of several that are due, the runtime takes any one; here a shutdown
goes first, and then a trigger, which is one schedule among others. -/
def next (watch : Watch) : Wake × Watch :=
  let now := watch.world.clock
  if watch.shutdownAt.any (· ≤ now) then (.shutdown, watch)
  else if 0 < watch.triggers then (.tick, { watch with triggers := watch.triggers - 1 })
  else if watch.shutdownAt.any (· ≤ watch.deadline) then
    (.shutdown, watch.waitUntil (watch.shutdownAt.getD now))
  else (.tick, { watch.waitUntil watch.deadline with deadline := watch.deadline + watch.interval })

/-- Carries a tick out. -/
def tick (r : Reconciler) (watch : Watch) : PassCounts × Watch :=
  let (counts, w) := r.tick watch.world
  (counts, { watch with world := w })

/-- A bound on the wake-ups: the limit, or as many as there are before the shutdown. -/
def wakeUps (watch : Watch) (limit : Option Nat) : Nat :=
  match limit, watch.shutdownAt with
  | some n, _ => n + 1
  | none, some time => watch.triggers + (time - watch.deadline) / watch.interval + 2
  | none, none => watch.triggers + 1

/-- Runs a worker until it ends. -/
def run (r : Reconciler) (limit : Option Nat) (watch : Watch) : WorkerTotals × Watch :=
  Worker.run limit next (tick r) (watch.wakeUps limit) {} watch

end Watch

end ReviewQuorum
