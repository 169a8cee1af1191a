/-! # Instants and moments

A `Timestamp` is an instant on a clock that ticks two thousand million times a second. The first
thousand million ticks of a second are its nanoseconds; the other half belongs to the leap second
that may follow it. So the order of instants is the order of integers, and a leap second lies
between its neighbours. The clock stops in the year 262142: after its last second there is no next
one (`Timestamp.nextSecond?`).

A `Moment` adds a sequence number, which orders what happened at one instant. -/

namespace ReviewQuorum

/-- An instant, as the number of ticks since the start of 1970. -/
structure Timestamp where
  ticks : Int
deriving DecidableEq, Inhabited

namespace Timestamp

/-- The nanoseconds of a second. -/
def nanosPerSecond : Nat := 1000000000

/-- The ticks of a second: its nanoseconds and those of a leap second after it. -/
def ticksPerSecond : Nat := 2 * nanosPerSecond

/-- The instant a number of nanoseconds into a second; from a thousand million on, they are those of
a leap second. -/
def ofParts (second : Int) (nanos : Nat) : Timestamp := ⟨second * ticksPerSecond + nanos⟩

/-- The second that an instant belongs to. -/
def second (t : Timestamp) : Int := t.ticks / ticksPerSecond

/-- The nanoseconds that have passed in the second and in a leap second after it. -/
def nanos (t : Timestamp) : Nat := (t.ticks % ticksPerSecond).toNat

/-- The last second of the clock, that before the year 262143. -/
def lastSecond : Int := 8210266876799

/-- The instant one second later, on a clock that never stops. A leap second has passed by then. -/
def nextSecond (t : Timestamp) : Timestamp :=
  if t.nanos < nanosPerSecond then ⟨t.ticks + ticksPerSecond⟩ else ⟨t.ticks + nanosPerSecond⟩

/-- The instant one second later, unless the clock has stopped by then. -/
def nextSecond? (t : Timestamp) : Option Timestamp :=
  if t.second < lastSecond then some t.nextSecond else none

/-- The later one of two instants. -/
def max (t u : Timestamp) : Timestamp := ⟨Max.max t.ticks u.ticks⟩

theorem ticks_lt_nextSecond (t : Timestamp) : t.ticks < t.nextSecond.ticks := by
  unfold nextSecond
  split <;> simp only [ticksPerSecond, nanosPerSecond] <;> omega

end Timestamp

/-- When something was written: the instant, and the place among what was written then. -/
structure Moment where
  timestamp : Timestamp
  sequence : Nat
deriving DecidableEq, Inhabited

namespace Moment

/-- Whether a moment is not after another one. -/
def le (a b : Moment) : Bool :=
  a.timestamp.ticks < b.timestamp.ticks ||
    (a.timestamp.ticks == b.timestamp.ticks && a.sequence ≤ b.sequence)

/-- Whether a moment is before another one. -/
def lt (a b : Moment) : Bool := !b.le a

theorem le_iff {a b : Moment} : a.le b = true ↔ a.timestamp.ticks < b.timestamp.ticks ∨
    (a.timestamp.ticks = b.timestamp.ticks ∧ a.sequence ≤ b.sequence) := by simp [le]

theorem lt_iff {a b : Moment} : a.lt b = true ↔ a.timestamp.ticks < b.timestamp.ticks ∨
    (a.timestamp.ticks = b.timestamp.ticks ∧ a.sequence < b.sequence) := by
  simp only [lt, Bool.not_eq_true', Bool.eq_false_iff, ne_eq, le_iff]
  omega

theorem le_refl (a : Moment) : a.le a = true := by simp [le_iff]

theorem le_total (a b : Moment) : (a.le b || b.le a) = true := by
  simp only [Bool.or_eq_true, le_iff]
  omega

theorem le_trans {a b c : Moment} (hab : a.le b = true) (hbc : b.le c = true) : a.le c = true := by
  rw [le_iff] at *
  omega

/-- What has moments is ordered by them: the laws that a sort asks for. -/
theorem le_trans_of {α : Type} (moment : α → Moment) (a b c : α)
    (hab : (moment a).le (moment b) = true) (hbc : (moment b).le (moment c) = true) :
    (moment a).le (moment c) = true :=
  le_trans hab hbc

theorem le_total_of {α : Type} (moment : α → Moment) (a b : α) :
    ((moment a).le (moment b) || (moment b).le (moment a)) = true :=
  le_total _ _

theorem le_antisymm {a b : Moment} (hab : a.le b = true) (hba : b.le a = true) : a = b := by
  obtain ⟨⟨s⟩, m⟩ := a
  obtain ⟨⟨t⟩, n⟩ := b
  simp only [le_iff] at hab hba
  have h1 : s = t := by omega
  have h2 : m = n := by omega
  rw [h1, h2]

end Moment

end ReviewQuorum
