import ReviewQuorum.Forge
import ReviewQuorum.Memory
import ReviewQuorum.Pass

/-! # The world of a reconciler

A `World` answers the questions of passes. It has a forge and a census, the memory of the reconciler
and a clock. A wait lasts as long as is asked for, unless the runtime has a longest one. Faults wait
in a line: a call takes the first one that is meant for its operation and fails with it. Others may
interrupt a pass: comments arrive while it posts, a post fails after a number of others, and a rival
pass takes a ticket while it fetches reviews. -/

namespace ReviewQuorum

/-- What others do in the middle of a pass. -/
structure Interruptions where
  comments : List (Account × String) := []
  postFailure : Option (Nat × Failure) := none
  rivals : Nat := 0
deriving DecidableEq, Inhabited

/-- Everything that passes ask about and change. -/
structure World where
  forge : Forge
  census : RoleTable
  faults : List (Operation × Failure) := []
  interruptions : Interruptions := {}
  memory : Memory := .empty
  clock : Nat := 0
  longestWait : Option Nat := none
deriving DecidableEq

namespace World

/-- The world with a forge and a census, before the first pass. -/
def start (forge : Forge) (census : RoleTable) : World := { forge := forge, census := census }

/-- Lines up failures of an operation. -/
def fail (w : World) (o : Operation) (times : Nat) (f : Failure) : World :=
  { w with faults := w.faults ++ List.replicate times (o, f) }

/-- Takes the first fault that is meant for an operation. -/
def takeFault (w : World) (o : Operation) : Option Failure × World :=
  match w.faults.find? fun f => f.1 == o with
  | none => (none, w)
  | some f => (some f.2, { w with faults := w.faults.eraseP fun f => f.1 == o })

/-- A call that succeeds unless a fault is meant for it. -/
def attempt {α : Type} (w : World) (o : Operation) (go : World → Except Failure α × World) :
    Except Failure α × World :=
  match w.takeFault o with
  | (some f, w) => (.error f, w)
  | (none, w) => go w

/-- A call about a change request that the forge has to know. -/
def onChange {α : Type} (w : World) (o : Operation) (id : String)
    (go : Snapshot → World → Except Failure α × World) : Except Failure α × World :=
  w.attempt o fun w =>
    match w.forge.snapshot? id with
    | none => (.error (o.notFound id), w)
    | some s => go s w

/-- How long a wait for so many milliseconds lasts. -/
def waited (w : World) (ms : Nat) : Nat := w.longestWait.elim ms (min ms)

/-- A comment of a user, if the forge knows the change request and an instant is left. -/
def comment (w : World) (id : String) (author : Account) (body : String) : World :=
  { w with forge := w.forge.modify id fun s => s.comment author body }

/-- The reviews of a change request. -/
def reviews (w : World) (id : String) : Except Failure (List Review) × World :=
  w.onChange .reviews id fun s w => (.ok s.reviews, w)

/-- Adds a reply to a change request, or aborts if no instant is left for it. -/
def addReply (id : String) (body : String) (s : Snapshot) (w : World) :
    Except Failure Unit × World :=
  match s.nextComment? w.forge.bot body with
  | none => (.error .aborted, w)
  | some c => (.ok (), { w with forge := w.forge.put id (s.addComment c) })

/-- Posts a reply. -/
def post (w : World) (id : String) (body : String) : Except Failure Unit × World :=
  w.onChange .postComment id (addReply id body)

/-- Sets a label. -/
def setLabel (w : World) (id : String) (label : String) (present : Bool) :
    Except Failure Unit × World :=
  w.onChange .setLabel id fun s w =>
    (.ok (), { w with forge :=
      { w.forge.put id (s.setLabel label present) with labelWrites := w.forge.labelWrites + 1 } })

/-- The role of an account by the census. -/
def roleOf (w : World) (account : Account) : Except Failure (Option Role) × World :=
  w.attempt .roleOf fun w => (.ok (w.census.roleOf account), w)

/-- The comment that arrives before a post. -/
def interruptByComment (w : World) (id : String) : World :=
  match w.interruptions.comments with
  | [] => w
  | (author, body) :: rest =>
    { w with interruptions := { w.interruptions with comments := rest } }.comment id author body

/-- The failure of a post that was announced, once enough posts have gone through. -/
def interruptByFailure (w : World) : Option Failure × World :=
  match w.interruptions.postFailure with
  | none => (none, w)
  | some (0, f) =>
    (some f, { w with interruptions := { w.interruptions with postFailure := none } })
  | some (n + 1, f) =>
    (none, { w with interruptions := { w.interruptions with postFailure := some (n, f) } })

/-- The ticket that a rival pass takes. -/
def interruptByRival (w : World) (id : String) : World :=
  match w.interruptions.rivals with
  | 0 => w
  | n + 1 =>
    let (place, memory) := w.memory.locate id
    { w with
      interruptions := { w.interruptions with rivals := n }
      memory := (memory.takeTicket place).2 }

/-- Posts a reply, with what interrupts it. -/
def interruptedPost (w : World) (id : String) (body : String) : Except Failure Unit × World :=
  match (w.interruptByComment id).interruptByFailure with
  | (some f, w) => (.error f, w)
  | (none, w) => w.post id body

/-- Answers a question of the pass over `id` that holds a ticket of the slot at `place`. -/
def answer (id : String) (place ticket : Nat) : (q : Query) → World → q.Answer × World
  | .changeRequest, w => w.onChange .changeRequest id fun s w => (.ok s.change, w)
  | .comments, w => w.onChange .comments id fun s w => (.ok s.comments, w)
  | .reviews, w => (w.interruptByRival id).reviews id
  | .roleOf account, w => w.roleOf account
  | .isLatest, w => ((w.memory.slotAt place).latestTicket == ticket, w)
  | .postComment body, w => w.interruptedPost id body
  | .setLabel label present, w => w.setLabel id label present
  | .pause ms, w => ((), { w with clock := w.clock + w.waited ms })

/-- A fresh reconciler in the same world. -/
def restart (w : World) : World := { w with memory := .empty }

end World

end ReviewQuorum
