import ReviewQuorum.Plan

/-! # The memory of a reconciler

A reconciler keeps a slot for every change request that it has looked at: the last ticket it gave
out and the context that completed passes left. The identifiers with a slot are the tracked ones.
Forgetting an identifier leaves its slot to the passes that still hold it; looking at it again opens
a new slot. -/

namespace ReviewQuorum

/-- The tickets and the context of a change request. -/
structure Slot where
  latestTicket : Nat := 0
  context : Context := {}
deriving DecidableEq, Inhabited

/-- All slots, and the places of those that are tracked. -/
structure Memory where
  slots : List Slot
  tracked : Dict Nat
deriving DecidableEq

namespace Memory

/-- The memory of a fresh start. -/
def empty : Memory := ⟨[], Dict.empty⟩

instance : Inhabited Memory := ⟨empty⟩

/-- The place of a change request's slot, which is opened if there is none. -/
def locate (m : Memory) (id : String) : Nat × Memory :=
  match m.tracked.get? id with
  | some place => (place, m)
  | none => (m.slots.length, ⟨m.slots ++ [{}], m.tracked.insert id m.slots.length⟩)

/-- The slot at a place. -/
def slotAt (m : Memory) (place : Nat) : Slot := m.slots.getD place {}

/-- Changes the slot at a place. -/
def setSlot (m : Memory) (place : Nat) (s : Slot) : Memory :=
  { m with slots := m.slots.set place s }

/-- Gives out the next ticket of a slot. -/
def takeTicket (m : Memory) (place : Nat) : Nat × Memory :=
  let s := m.slotAt place
  (s.latestTicket + 1, m.setSlot place { s with latestTicket := s.latestTicket + 1 })

/-- Replaces the context of a slot. -/
def remember (m : Memory) (place : Nat) (context : Context) : Memory :=
  m.setSlot place { m.slotAt place with context := context }

/-- Starts to track a change request. -/
def track (m : Memory) (id : String) : Memory := (m.locate id).2

/-- Stops to track a change request. -/
def untrack (m : Memory) (id : String) : Memory := { m with tracked := m.tracked.erase id }

/-- The tracked change requests in order. -/
def trackedIds (m : Memory) : List String := m.tracked.keys

/-- What is remembered of a change request, which is tracked from then on. -/
def look (m : Memory) (id : String) : Context × Memory :=
  let (place, m) := m.locate id
  ((m.slotAt place).context, m)

end Memory

end ReviewQuorum
