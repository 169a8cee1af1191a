import ReviewQuorum.Reconciler

/-! # Passes side by side

A `Round` runs several passes in one world. They take turns from a queue: a pass goes on until it
pauses, has to wait, gives way or ends. Passes over one change request hold its slot one after
another, in the order of their tickets; the others wait. Those that pause wake at their time, and
the clock moves on when nobody else can go on.

A pass gives way for two reasons. A pause of no length is over at once, but in a turn a pass has
patience for so many of them only. And in a round of courtesy every pass gives way each time before
it fetches reviews, so that all have their tickets by then; what a rival does at that time comes
first. Those that gave way come back when the queue is empty or has had so many turns in a row, the
last one first.

Only a failure makes a pass pause or fetch reviews again, so a round has a bounded number of
steps.

This is one schedule of the runtime among others. Whose turn it is, how many turns there are in a
row and how long a pass may go on is for the runtime to choose, and it may choose otherwise each
time. It promises that every pass is run to its end, and results about a tick rest on no more than
that (`Worker.Covers`). -/

namespace ReviewQuorum

/-- Where a pass stands. -/
inductive Stage
  | waiting
  | running (rest : Inquiry (Except Failure PassEnd))
  | finished (result : Except Failure PassResult)

/-- A pass that has taken its ticket. Its patience is the number of pauses of no length that it may
make in its next turn; if it gave way to the others before fetching reviews, it need not do so again
for this fetch. -/
structure Task where
  id : String
  place : Nat
  ticket : Nat
  stage : Stage
  patience : Nat
  gaveWay : Bool

/-- Whether a pass has ended. -/
def Task.isFinished (t : Task) : Bool :=
  match t.stage with
  | .finished _ => true
  | _ => false

/-- Whether a pass waits for the slot at a place. -/
def Task.waitsFor (place : Nat) (t : Task) : Bool :=
  match t.stage with
  | .waiting => t.place == place
  | _ => false

/-- Whose turn it is: a pass that starts, or one that goes on. -/
inductive Turn
  | start (id : String)
  | resume (index : Nat)

/-- Passes that share a world, on one schedule of the runtime among others: the queue, the turns
that it may still have in a row, the passes that gave way, the last one first, and those that sleep,
with the times at which they wake. -/
structure Round where
  world : World
  tasks : List Task
  queue : List Turn
  turnsLeft : Nat
  aside : List Nat
  asleep : List (Nat × Nat)
  courtesy : Bool

namespace Program

variable {Q : Type} {A : Q → Type} {α σ : Type}

/-- Lets a state answer the questions of a program up to one at which it stops. -/
def advance (stops : Q → σ → Bool) (answer : (q : Q) → σ → A q × σ) :
    Program Q A α → σ → Program Q A α × σ
  | done a, s => (done a, s)
  | ask q next, s =>
    if stops q s then (ask q next, s)
    else (next (answer q s).1).advance stops answer (answer q s).2

end Program

/-- The program behind a pause. -/
def Inquiry.wake {α : Type} : Inquiry α → Inquiry α
  | .ask (.pause _) next => next ()
  | p => p

/-- What changes while a pass has its turn. -/
structure Footing where
  world : World
  patience : Nat
  gaveWay : Bool

namespace Footing

/-- The questions at which a pass stops. -/
def stops (courtesy : Bool) : Query → Footing → Bool
  | .pause ms, f => 0 < ms || f.patience == 0
  | .reviews, f => courtesy && !f.gaveWay
  | _, _ => false

/-- Answers a question of a pass. A pause takes some of its patience, and reviews are fetched
without a rival if the rival has had his turn. -/
def answer (t : Task) : (q : Query) → Footing → q.Answer × Footing
  | .pause ms, f =>
    let (a, w) := World.answer t.id t.place t.ticket (.pause ms) f.world
    (a, { f with world := w, patience := f.patience - 1 })
  | .reviews, f =>
    let (a, w) :=
      if f.gaveWay then f.world.reviews t.id
      else World.answer t.id t.place t.ticket .reviews f.world
    (a, { f with world := w, gaveWay := false })
  | q, f =>
    let (a, w) := World.answer t.id t.place t.ticket q f.world
    (a, { f with world := w })

end Footing

namespace Round

/-- The patience of a pass in a turn, a choice of the schedule. -/
def patience : Nat := 128

/-- The patience in the turn in which a pass takes its slot, which uses some of it. -/
def firstPatience : Nat := patience - 1

/-- How many turns the queue may have in a row while others stand aside, a choice as well. -/
def turnsInARow : Nat := 61

/-- Replaces the pass at an index. -/
def setTask (round : Round) (i : Nat) (t : Task) : Round :=
  { round with tasks := round.tasks.set i t }

/-- Puts a turn at the end of the queue. -/
def enqueue (round : Round) (turn : Turn) : Round :=
  { round with queue := round.queue ++ [turn] }

/-- Lets the pass at an index stand aside. -/
def setAside (round : Round) (i : Nat) : Round := { round with aside := i :: round.aside }

/-- Hands the slot at a place to the first pass that waits for it. -/
def handOver (r : Reconciler) (round : Round) (place : Nat) : Round :=
  match round.tasks.findIdx? (Task.waitsFor place) with
  | none => round
  | some j =>
    match round.tasks[j]? with
    | none => round
    | some t =>
      let p := r.program (round.world.memory.slotAt place).context
      (round.setTask j { t with stage := .running p }).enqueue (.resume j)

/-- Lets a running pass go on. -/
def advance (r : Reconciler) (round : Round) (i : Nat) (t : Task)
    (p : Inquiry (Except Failure PassEnd)) : Round :=
  let (rest, f) := p.advance (Footing.stops round.courtesy) (Footing.answer t)
    ⟨round.world, t.patience, t.gaveWay⟩
  let t := { t with stage := .running rest, patience := patience, gaveWay := f.gaveWay }
  match rest with
  | .done result =>
    let (result, world) := Reconciler.close t.id t.place t.ticket result f.world
    let round := { round with world := world }
    handOver r (round.setTask i { t with stage := .finished result }) t.place
  | .ask (.pause (ms + 1)) _ =>
    { round.setTask i t with
      world := f.world
      asleep := round.asleep ++ [(f.world.clock + f.world.waited (ms + 1), i)] }
  | .ask .reviews _ =>
    let round := { round with world := f.world.interruptByRival t.id }
    (round.setTask i { t with gaveWay := true }).setAside i
  | .ask _ _ => ({ round with world := f.world }.setTask i t).setAside i

/-- Starts a pass: it takes a ticket and goes on if its slot is free. -/
def begin (r : Reconciler) (round : Round) (id : String) : Round :=
  let (place, memory) := round.world.memory.locate id
  let (ticket, memory) := memory.takeTicket place
  let round := { round with world := { round.world with memory := memory } }
  let i := round.tasks.length
  if round.tasks.any fun t => t.place == place && !t.isFinished then
    let t : Task := ⟨id, place, ticket, .waiting, firstPatience, false⟩
    { round with tasks := round.tasks ++ [t] }
  else
    let p := r.program (memory.slotAt place).context
    let t : Task := ⟨id, place, ticket, .running p, firstPatience, false⟩
    advance r { round with tasks := round.tasks ++ [t] } i t p

/-- Takes the next turn. -/
def take (r : Reconciler) (round : Round) : Turn → Round
  | .start id => begin r round id
  | .resume i =>
    match round.tasks[i]? with
    | none => round
    | some t =>
      match t.stage with
      | .running p => advance r round i t p
      | _ => round

/-- Lets the pause of a pass end. -/
def wakeTask (tasks : List Task) (i : Nat) : List Task :=
  match tasks[i]? with
  | none => tasks
  | some t =>
    match t.stage with
    | .running p => tasks.set i { t with stage := .running p.wake }
    | _ => tasks

/-- Moves the clock on to an instant and wakes the passes whose time has come. -/
def wakeAt (round : Round) (time : Nat) : Round :=
  let awake := (round.asleep.filter fun s => s.1 == time).map (·.2)
  { round with
    world := { round.world with clock := time }
    tasks := awake.foldl wakeTask round.tasks
    queue := awake.map .resume
    turnsLeft := turnsInARow
    asleep := round.asleep.filter fun s => s.1 != time }

/-- Brings back the passes that stand aside. -/
def bringBack (round : Round) : Round :=
  { round with
    queue := round.queue ++ round.aside.map .resume
    turnsLeft := turnsInARow
    aside := [] }

/-- Takes turns until all passes have ended, in at most so many steps. -/
def runFor (r : Reconciler) : Nat → Round → Round
  | 0, round => round
  | n + 1, round =>
    match round.queue, round.turnsLeft with
    | turn :: queue, left + 1 =>
      runFor r n (take r { round with queue := queue, turnsLeft := left } turn)
    | [], _ =>
      if round.aside.isEmpty then
        match (round.asleep.map (·.1)).min? with
        | none => round
        | some time => runFor r n (round.wakeAt time)
      else runFor r n round.bringBack
    | _, 0 => runFor r n round.bringBack

/-- A bound on the steps of a round. A pass has three turns, to start, after it has waited and after
it gave way, and for each failure two more at most; every turn may need one step to bring passes
back, and every failure a move of the clock. -/
def steps (ids : List String) (w : World) : Nat :=
  2 * (3 * ids.length + 2 * (w.faults.length + 1)) + (w.faults.length + 1) + 1

/-- Runs a pass for each of some identifiers, started in their order, on this schedule. -/
def run (r : Reconciler) (courtesy : Bool) (ids : List String) (w : World) :
    List (Except Failure PassResult) × World :=
  let round := runFor r (steps ids w) ⟨w, [], ids.map .start, turnsInARow, [], [], courtesy⟩
  (round.tasks.filterMap fun t =>
    match t.stage with
    | .finished result => some result
    | _ => none, round.world)

end Round

end ReviewQuorum
