import Mathlib.Order.Bounds.Basic
import Mathlib.Order.Lattice.Nat
import Mathlib.Tactic.Push
import ReviewQuorum.Proofs.WireForms

/-! # The course of a retried call

A call is made until a result is final, a success or a permanent failure, or as often as it is
allowed. What is seen of it are the calls and the waits between them (`Retry.Event`). The delays of
the waits are computed with words of 32 bits and durations that end somewhere, but come to what they
are in exact arithmetic (`Retry.factor_toNat`, `Retry.backoff_eq_delay`).

How to pause is a parameter of a retried call, and so it is of its course: a runtime in any state
is asked for waits, and each may change this state as it likes. While results are transient
failures, each attempt adds a call and a wait to what has been seen, so in the end there is one call
more than waits, and the runtime has been asked for exactly the delays (`Retry.attempt_eq`,
`retry_course`). -/

namespace ReviewQuorum

namespace Retry

/-- What is seen of a retried call: that it is made, and waits of so many milliseconds. -/
inductive Event
  | called
  | waited (ms : Nat)
deriving DecidableEq

/-- The delay before a retry, counted from one, in exact arithmetic. -/
def delay (p : Retry) (retry : Nat) : Nat :=
  min (p.initialBackoff * 2 ^ min (retry - 1) 16) p.maxBackoff

/-- Calls with a wait after each. -/
def opening (p : Retry) (calls : Nat) : List Event :=
  (List.range calls).flatMap fun i => [.called, .waited (p.delay (i + 1))]

variable {α σ : Type}

/-- The runtime after a wait for each of the first delays. -/
def paused (p : Retry) (pause : Nat → σ → σ) (s : σ) (calls : Nat) : σ :=
  (List.range calls).foldl (fun s i => pause (p.delay (i + 1)) s) s

/-- A result after which a call is not made again. -/
def IsFinal (result : Except Failure α) : Prop := ∀ e, result = .error e → e.transient = false

/-- A call that has the first result when it is made first, and so on. -/
def callOf (results : Nat → Except Failure α) : StateM (List Event × σ) (Except Failure α) :=
  fun (seen, s) => (results (seen.count .called + 1), seen ++ [.called], s)

/-- A wait, which the runtime carries out. -/
def waitBy (pause : Nat → σ → σ) (ms : Nat) : StateM (List Event × σ) Unit :=
  fun (seen, s) => ((), seen ++ [.waited ms], pause ms s)

/-- The result of a retried call, what is seen of it, and the runtime after it. -/
def courseOf (p : Retry) (pause : Nat → σ → σ) (results : Nat → Except Failure α) (s : σ) :
    Except Failure α × List Event × σ :=
  p.run (waitBy pause) (callOf results) ([], s)

/-! ### Delays -/

/-- **The factor is an exact power of two.** -/
theorem factor_toNat (retry : Nat) : (factor retry).toNat = 2 ^ min (retry - 1) 16 := by
  rw [factor]
  have hle : min (retry - 1) 16 ≤ 16 := Nat.min_le_right _ _
  generalize min (retry - 1) 16 = k at hle ⊢
  have hk : (UInt32.ofNat k).toNat % 32 = k := by
    rw [UInt32.toNat_ofNat']
    omega
  have hpow : 2 ^ k < 2 ^ 32 := Nat.pow_lt_pow_right (by omega) (by omega)
  rw [UInt32.toNat_shiftLeft, hk, UInt32.toNat_one, Nat.one_shiftLeft, Nat.mod_eq_of_lt hpow]

/-- **A product that is too long for a duration exceeds the ceiling as well.** -/
theorem backoff_eq_delay {p : Retry} (hp : p.Fits) (retry : Nat) :
    p.backoff retry = p.delay retry := by
  have hceiling : p.maxBackoff ≤ longestDuration :=
    Nat.le_of_lt (Nat.lt_of_lt_of_le hp.maxBackoff (by decide))
  rw [backoff, delay, factor_toNat, Nat.min_assoc, Nat.min_eq_right hceiling]

theorem delay_le (p : Retry) (retry : Nat) : p.delay retry ≤ p.maxBackoff := Nat.min_le_right _ _

theorem le_delay {p : Retry} (h : p.initialBackoff ≤ p.maxBackoff) (retry : Nat) :
    p.initialBackoff ≤ p.delay retry :=
  Nat.le_min.mpr ⟨Nat.le_mul_of_pos_right _ (Nat.two_pow_pos _), h⟩

theorem delay_le_succ (p : Retry) (retry : Nat) : p.delay retry ≤ p.delay (retry + 1) := by
  have hexponent : min (retry - 1) 16 ≤ min (retry + 1 - 1) 16 := by omega
  have hproduct : p.initialBackoff * 2 ^ min (retry - 1) 16 ≤
      p.initialBackoff * 2 ^ min (retry + 1 - 1) 16 :=
    Nat.mul_le_mul_left _ (Nat.pow_le_pow_right (by decide) hexponent)
  exact Nat.le_min.mpr ⟨Nat.le_trans (Nat.min_le_left _ _) hproduct, Nat.min_le_right _ _⟩

/-! ### Attempts -/

theorem opening_succ (p : Retry) (calls : Nat) :
    p.opening (calls + 1) = p.opening calls ++ [.called, .waited (p.delay (calls + 1))] := by
  rw [opening, List.range_succ, List.flatMap_append]
  rfl

theorem paused_succ (p : Retry) (pause : Nat → σ → σ) (s : σ) (calls : Nat) :
    p.paused pause s (calls + 1) = pause (p.delay (calls + 1)) (p.paused pause s calls) := by
  rw [paused, List.range_succ, List.foldl_append]
  rfl

theorem count_opening (p : Retry) (calls : Nat) : (p.opening calls).count .called = calls := by
  induction calls with
  | zero => rfl
  | succ calls ih =>
    rw [opening_succ, List.count_append, ih]
    rfl

section Attempts

variable {p : Retry} {pause : Nat → σ → σ} {results : Nat → Except Failure α} {s : σ}
  {left made c : Nat}

theorem callOf_opening : callOf results (p.opening made, s) =
    (results (made + 1), p.opening made ++ [.called], s) := by rw [callOf, count_opening]

/-- The next call is the last one, because its result is final or no retry is left. -/
theorem attempt_of_last (hlast : left = 0 ∨ IsFinal (results (made + 1))) :
    p.attempt (waitBy pause) (callOf results) left made (p.opening made, s) =
      (results (made + 1), p.opening made ++ [.called], s) := by
  cases left with
  | zero => exact callOf_opening
  | succ left =>
    have hfinal := hlast.resolve_left (Nat.succ_ne_zero left)
    rw [attempt]
    simp only [bind, StateT.bind, callOf_opening]
    cases hresult : results (made + 1) with
    | ok v => rfl
    | error e =>
      simp only [hfinal e hresult, Bool.false_eq_true, if_false]
      rfl

theorem attempt_succ_of_transient (hp : p.Fits) (h : ¬ IsFinal (results (made + 1))) :
    p.attempt (waitBy pause) (callOf results) (left + 1) made (p.opening made, s) =
      p.attempt (waitBy pause) (callOf results) left (made + 1)
        (p.opening (made + 1), pause (p.delay (made + 1)) s) := by
  rw [IsFinal] at h
  push Not at h
  obtain ⟨e, hresult, htransient⟩ := h
  have hwait : waitBy pause (p.backoff (made + 1)) (p.opening made ++ [.called], s) =
      ((), p.opening (made + 1), pause (p.delay (made + 1)) s) := by
    rw [waitBy, backoff_eq_delay hp, opening_succ, List.append_assoc]
    rfl
  rw [attempt]
  simp only [bind, StateT.bind, callOf_opening, hresult, htransient, if_true, hwait]

/-- **Attempts go on** to the first final result or to the last attempt that is allowed. -/
theorem attempt_eq (hp : p.Fits)
    (hc : IsLeast {n | made < n ∧ (n = made + left + 1 ∨ IsFinal (results n))} c) :
    p.attempt (waitBy pause) (callOf results) left made (p.opening made, p.paused pause s made) =
      (results c, p.opening (c - 1) ++ [.called], p.paused pause s (c - 1)) := by
  induction left generalizing made with
  | zero =>
    have hnext : c = made + 1 := Nat.le_antisymm (hc.2 ⟨Nat.lt_succ_self made, .inl rfl⟩) hc.1.1
    rw [attempt_of_last (.inl rfl), hnext]
    rfl
  | succ left ih =>
    by_cases hfinal : IsFinal (results (made + 1))
    · have hnext : c = made + 1 :=
        Nat.le_antisymm (hc.2 ⟨Nat.lt_succ_self made, .inr hfinal⟩) hc.1.1
      rw [attempt_of_last (.inr hfinal), hnext]
      rfl
    · have hlater : made + 1 < c := by
        refine Nat.lt_of_le_of_ne hc.1.1 fun hnext => ?_
        rcases hc.1.2 with hlimit | hcfinal
        · omega
        · exact hfinal (hnext ▸ hcfinal)
      have hlimit : made + (left + 1) + 1 = made + 1 + left + 1 := by omega
      rw [attempt_succ_of_transient hp hfinal, ← p.paused_succ pause]
      refine ih ⟨⟨hlater, hlimit ▸ hc.1.2⟩, fun n hn => hc.2 ⟨Nat.lt_of_succ_lt hn.1, ?_⟩⟩
      exact hlimit ▸ hn.2

end Attempts

end Retry

open Retry

/-- **The course of a retried call.** The call is made `c` times, where `c` is the smaller one of
the number of attempts, which is at least one, and the place of the first result that is final; so
the attempts can be counted in 32 bits. The result is the last one, unchanged. After each call but
the last there is a wait for the initial delay times an exact power of two, the sixteenth at most,
or for the ceiling if that is less. Whatever a wait does, these are the waits that the runtime has
carried out in the end. If the initial delay does not exceed the ceiling, the delays stay between
these and never decrease. -/
theorem retry_course {α σ : Type} {p : Retry} (hp : p.Fits) (pause : Nat → σ → σ)
    (results : Nat → Except Failure α) (s : σ) :
    ∃ c, IsLeast {n | 0 < n ∧ (n = max p.maxAttempts 1 ∨ IsFinal (results n))} c ∧
      c < 2 ^ 32 ∧
      p.courseOf pause results s = (results c,
        (List.range (c - 1)).flatMap (fun i => [.called, .waited (p.delay (i + 1))]) ++ [.called],
        (List.range (c - 1)).foldl (fun s i => pause (p.delay (i + 1)) s) s) ∧
      (∀ retry, (factor retry).toNat = 2 ^ min (retry - 1) 16 ∧
        p.backoff retry = min (p.initialBackoff * 2 ^ min (retry - 1) 16) p.maxBackoff) ∧
      (p.initialBackoff ≤ p.maxBackoff → ∀ retry, p.initialBackoff ≤ p.delay retry ∧
        p.delay retry ≤ p.maxBackoff ∧ p.delay retry ≤ p.delay (retry + 1)) := by
  let stops : Set Nat := {n | 0 < n ∧ (n = max p.maxAttempts 1 ∨ IsFinal (results n))}
  have hallowed : max p.maxAttempts 1 ∈ stops := ⟨by omega, .inl rfl⟩
  obtain ⟨c, hleast⟩ : ∃ c, IsLeast stops c :=
    ⟨sInf stops, Nat.sInf_mem ⟨_, hallowed⟩, fun n hn => Nat.sInf_le hn⟩
  have hsize : c < 2 ^ 32 := by
    have hmax := hp.maxAttempts
    have hle : c ≤ max p.maxAttempts 1 := hleast.2 hallowed
    omega
  have hstops : stops =
      {n | 0 < n ∧ (n = 0 + (p.maxAttempts - 1) + 1 ∨ IsFinal (results n))} := by
    rw [show 0 + (p.maxAttempts - 1) + 1 = max p.maxAttempts 1 by omega]
  refine ⟨c, hleast, hsize, ?_, fun retry => ⟨factor_toNat retry, ?_⟩, fun h retry => ?_⟩
  · rw [hstops] at hleast
    exact attempt_eq hp hleast
  · exact backoff_eq_delay hp retry
  · exact ⟨le_delay h retry, p.delay_le retry, p.delay_le_succ retry⟩

/-- A call that fails once, because the other side is slow. -/
def slowOnce (n : Nat) : Except Failure String :=
  if n = 1 then .error (.reported true "forge.comments" "slow") else .ok "done"

/-- With four attempts and delays from half a second to one second, a call that fails once is made
twice. The runtime has a clock, which reads two seconds before. -/
theorem retry_course_slowOnce :
    let p : Retry := ⟨4, 500, 1000⟩
    p.Fits ∧ p.courseOf (fun ms clock => clock + ms) slowOnce 2000 =
        (.ok "done", [.called, .waited 500, .called], 2500) ∧
      p.initialBackoff ≤ p.delay 1 ∧ p.delay 1 ≤ p.delay 2 := by
  intro p
  have hp : p.Fits := ⟨by decide, by decide, by decide⟩
  obtain ⟨c, hleast, -, hcourse, -, hdelays⟩ :=
    retry_course hp (fun ms clock => clock + ms) slowOnce 2000
  have hfirst : ¬ IsFinal (slowOnce 1) := fun h => absurd (h _ rfl) (by decide)
  have hsecond : IsFinal (slowOnce 2) := nofun
  have hc : c = 2 := by
    refine Nat.le_antisymm (hleast.2 ⟨by decide, .inr hsecond⟩) ?_
    by_contra hlt
    have hone : c = 1 := by have := hleast.1.1; omega
    rcases hleast.1.2 with hlimit | hfinal
    · rw [hone] at hlimit
      exact absurd hlimit (by decide)
    · exact hfirst (hone ▸ hfinal)
  have hdelay : p.delay (0 + 1) = 500 := by decide
  have hevents : p.courseOf (fun ms clock => clock + ms) slowOnce 2000 =
      (.ok "done", [.called, .waited 500, .called], 2500) := by
    rw [hcourse, hc]
    simp only [Nat.add_one_sub_one, List.range_one, List.flatMap_singleton, List.foldl_cons,
      List.foldl_nil, hdelay]
    rfl
  obtain ⟨hinitial, -, hincreases⟩ := hdelays (by decide) 1
  exact ⟨hp, hevents, hinitial, hincreases⟩

end ReviewQuorum
