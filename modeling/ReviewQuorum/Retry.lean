import ReviewQuorum.Failure

/-! # Retrying

A call that fails transiently is made again after a delay, up to a number of attempts; any other
result is final. The delay doubles with every retry, sixteen times at most, and never exceeds a
ceiling. -/

namespace ReviewQuorum

/-- How often a call is attempted, and the delays in milliseconds. No attempt counts as one. -/
structure Retry where
  maxAttempts : Nat := 3
  initialBackoff : Nat := 200
  maxBackoff : Nat := 5000
deriving DecidableEq, Inhabited

namespace Retry

/-- Attempts without delays. -/
def immediate (maxAttempts : Nat) : Retry := ⟨maxAttempts, 0, 0⟩

/-- The longest duration in milliseconds: that of `2 ^ 64` seconds, less a part of the last one. -/
def longestDuration : Nat := UInt64.size * 1000 - 1

/-- The factor of the delay before a retry, counted from one, as a word of 32 bits. -/
def factor (retry : Nat) : UInt32 := 1 <<< UInt32.ofNat (min (retry - 1) 16)

/-- The delay before a retry, counted from one. A product that is too long for a duration becomes
the longest one. -/
def backoff (p : Retry) (retry : Nat) : Nat :=
  min (min (p.initialBackoff * (factor retry).toNat) longestDuration) p.maxBackoff

variable {m : Type → Type} [Monad m] {α : Type}

/-- Makes a call with so many retries left, after so many attempts. -/
def attempt (p : Retry) (pause : Nat → m Unit) (call : m (Except Failure α)) :
    Nat → Nat → m (Except Failure α)
  | 0, _ => call
  | left + 1, made => do
    match ← call with
    | .ok v => pure (.ok v)
    | .error e =>
      if e.transient then do
        pause (p.backoff (made + 1))
        attempt p pause call left (made + 1)
      else pure (.error e)

/-- Makes a call until it succeeds, fails permanently or has no attempt left. -/
def run (p : Retry) (pause : Nat → m Unit) (call : m (Except Failure α)) : m (Except Failure α) :=
  attempt p pause call (p.maxAttempts - 1) 0

end Retry

end ReviewQuorum
