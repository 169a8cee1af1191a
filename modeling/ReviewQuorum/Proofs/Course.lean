import Mathlib.Logic.Relation
import ReviewQuorum.Pass

/-! # Courses of programs

Others may act between two questions of a program. A `Course` is one way for a program to go: it
lists the exchanges, each question with its answer, and between them the environment may take any
number of steps. Where it takes none, the course is the run (`Course.ofRun`).

A course of a program in two pieces is one of the first piece and then one of the second
(`Course.of_bind`). A course of attempts ends with the failure of the first piece, or goes on from
its value (`Course.of_attempt_bind`). What every answer and every step of the environment preserves,
the whole course preserves (`Course.related`). -/

namespace ReviewQuorum

/-- A question and its answer. -/
structure Exchange (Q : Type) (A : Q → Type) where
  query : Q
  answer : A query

/-- The exchanges of a program that a state answers at once. -/
def Program.exchanges {Q : Type} {A : Q → Type} {α σ : Type} (answer : (q : Q) → σ → A q × σ) :
    Program Q A α → σ → List (Exchange Q A)
  | done _, _ => []
  | ask q next, s => ⟨q, (answer q s).1⟩ :: (next (answer q s).1).exchanges answer (answer q s).2

/-- **The courses of a program** whose questions a state answers, while the environment takes steps.
-/
inductive Course {Q : Type} {A : Q → Type} {σ α : Type} (answer : (q : Q) → σ → A q × σ)
    (env : σ → σ → Prop) : Program Q A α → σ → List (Exchange Q A) → α → σ → Prop
  | done (a : α) (s : σ) : Course answer env (.done a) s [] a s
  | env {p s s' t a s''} (h : env s s') (hp : Course answer env p s' t a s'') :
    Course answer env p s t a s''
  | ask {q next s t a s'} (h : Course answer env (next (answer q s).1) (answer q s).2 t a s') :
    Course answer env (.ask q next) s (⟨q, (answer q s).1⟩ :: t) a s'

namespace Course

variable {Q : Type} {A : Q → Type} {α β σ : Type} {answer : (q : Q) → σ → A q × σ}
  {env : σ → σ → Prop}

/-- A run is a course in which the environment does nothing. -/
theorem ofRun (p : Program Q A α) (s : σ) :
    Course answer env p s (p.exchanges answer s) (p.run answer s).1 (p.run answer s).2 := by
  induction p generalizing s with
  | done a => exact .done a s
  | ask q next ih => exact .ask (ih _ _)

/-- What answers and steps preserve, a course preserves. -/
theorem related {R : σ → σ → Prop} (hrefl : ∀ s, R s s)
    (htrans : ∀ {s s' s''}, R s s' → R s' s'' → R s s'') (henv : ∀ {s s'}, env s s' → R s s')
    (hanswer : ∀ q s, R s (answer q s).2) {p : Program Q A α} {s s' : σ} {t : List (Exchange Q A)}
    {a : α} (h : Course answer env p s t a s') : R s s' := by
  induction h with
  | done a s => exact hrefl s
  | env h _ ih => exact htrans (henv h) ih
  | ask _ ih => exact htrans (hanswer _ _) ih

theorem of_pure {a b : α} {s s' : σ} {t : List (Exchange Q A)}
    (h : Course answer env (pure a : Program Q A α) s t b s') :
    t = [] ∧ b = a ∧ Relation.ReflTransGen env s s' := by
  generalize hp : (pure a : Program Q A α) = p at h
  induction h with
  | done b s => cases hp; exact ⟨rfl, rfl, .refl⟩
  | env h _ ih =>
    obtain ⟨ht, hb, hs⟩ := ih hp
    exact ⟨ht, hb, .head h hs⟩
  | ask _ _ => cases hp

theorem of_query {q : Q} {a : A q} {s s' : σ} {t : List (Exchange Q A)}
    (h : Course answer env (Program.query q) s t a s') :
    ∃ s₁, Relation.ReflTransGen env s s₁ ∧ a = (answer q s₁).1 ∧ t = [⟨q, a⟩] ∧
      Relation.ReflTransGen env (answer q s₁).2 s' := by
  generalize hp : Program.query q = p at h
  induction h with
  | done b s => cases hp
  | env h _ ih =>
    obtain ⟨s₁, hs, h⟩ := ih hp
    exact ⟨s₁, .head ‹_› hs, h⟩
  | @ask q' next s t a s' h _ =>
    cases hp
    obtain ⟨rfl, rfl, hs⟩ := of_pure h
    exact ⟨s, .refl, rfl, rfl, hs⟩

/-- The environment may go on after the program has ended. -/
theorem trail {p : Program Q A α} {s s₁ s' : σ} {t : List (Exchange Q A)} {a : α}
    (h : Course answer env p s t a s₁) (hs : Relation.ReflTransGen env s₁ s') :
    Course answer env p s t a s' := by
  induction h with
  | done a s =>
    induction hs using Relation.ReflTransGen.head_induction_on with
    | refl => exact .done a s'
    | head h _ ih => exact .env h ih
  | env h _ ih => exact .env h (ih hs)
  | ask _ ih => exact .ask (ih hs)

/-- **A course of two pieces** is one of the first and then one of the second. -/
theorem of_bind {p : Program Q A α} {f : α → Program Q A β} {s s' : σ} {t : List (Exchange Q A)}
    {b : β} (h : Course answer env (p >>= f) s t b s') :
    ∃ t₁ a s₁ t₂, Course answer env p s t₁ a s₁ ∧ Course answer env (f a) s₁ t₂ b s' ∧
      t = t₁ ++ t₂ := by
  generalize hq : p >>= f = q at h
  induction h generalizing p with
  | done b s =>
    cases p with
    | done a => exact ⟨[], a, s, [], .done a s, (show f a = _ from hq) ▸ .done b s, rfl⟩
    | ask q next => cases hq
  | env h _ ih =>
    obtain ⟨t₁, a, s₁, t₂, h₁, h₂, ht⟩ := ih hq
    exact ⟨t₁, a, s₁, t₂, .env h h₁, h₂, ht⟩
  | @ask q next s t b s' h ih =>
    cases p with
    | done a => exact ⟨[], a, s, _, .done a s, (show f a = _ from hq) ▸ .ask h, rfl⟩
    | ask q' next' =>
      cases hq
      obtain ⟨t₁, a, s₁, t₂, h₁, h₂, rfl⟩ := ih rfl
      exact ⟨_, a, s₁, t₂, .ask h₁, h₂, rfl⟩

/-! ### Attempts -/

section Attempts

variable {answer : (q : Query) → σ → q.Answer × σ} {s s' : σ}
  {t : List (Exchange Query Query.Answer)}

theorem of_attempt_pure {a : α} {r : Except Failure α}
    (h : Course answer env (pure a : Attempt α).run s t r s') :
    t = [] ∧ r = .ok a ∧ Relation.ReflTransGen env s s' := of_pure h

theorem of_attempt_lift {p : Inquiry α} {r : Except Failure α}
    (h : Course answer env (liftM p : Attempt α).run s t r s') :
    ∃ a, r = .ok a ∧ Course answer env p s t a s' := by
  have hbind : Course answer env (p >>= fun a => (pure (.ok a) : Inquiry (Except Failure α)))
      s t r s' := h
  obtain ⟨t₁, a, s₁, t₂, h₁, h₂, rfl⟩ := of_bind hbind
  obtain ⟨rfl, rfl, hs⟩ := of_pure h₂
  exact ⟨a, rfl, by simpa using h₁.trail hs⟩

/-- **A course of two attempts** ends with the failure of the first or goes on from its value. -/
theorem of_attempt_bind {x : Attempt α} {f : α → Attempt β} {r : Except Failure β}
    (h : Course answer env (x >>= f).run s t r s') :
    (∃ e, r = .error e ∧ Course answer env x.run s t (.error e) s') ∨
    ∃ a s₁ t₁ t₂, Course answer env x.run s t₁ (.ok a) s₁ ∧
      Course answer env (f a).run s₁ t₂ r s' ∧ t = t₁ ++ t₂ := by
  rw [ExceptT.run_bind] at h
  obtain ⟨t₁, r₁, s₁, t₂, h₁, h₂, rfl⟩ := of_bind h
  cases r₁ with
  | ok a => exact .inr ⟨a, s₁, t₁, t₂, h₁, h₂, rfl⟩
  | error e =>
    obtain ⟨rfl, rfl, hs⟩ := of_pure h₂
    exact .inl ⟨e, rfl, by simpa using h₁.trail hs⟩

/-- **A course of a call that is retried** is one of the call itself, after failed ones and pauses.
What all of these have in common, `quiet` says. -/
theorem of_retry {R : σ → σ → Prop} {quiet : Exchange Query Query.Answer → Prop}
    (hrefl : ∀ s, R s s) (htrans : ∀ {s s' s''}, R s s' → R s' s'' → R s s'')
    (henv : ∀ {s s'}, env s s' → R s s') (hanswer : ∀ q s, R s (answer q s).2)
    (hpause : ∀ ms a, quiet ⟨.pause ms, a⟩) {call : Inquiry (Except Failure α)}
    (hfail : ∀ {s t e s'}, Course answer env call s t (.error e) s' → ∀ x ∈ t, quiet x)
    (p : Retry) (left made : Nat) {r : Except Failure α}
    (h : Course answer env (p.attempt (fun ms => inquire (.pause ms)) call left made) s t r s') :
    ∃ s₁ t₁ t₂, R s s₁ ∧ (∀ x ∈ t₁, quiet x) ∧ Course answer env call s₁ t₂ r s' ∧
      t = t₁ ++ t₂ := by
  induction left generalizing made s t with
  | zero => exact ⟨s, [], t, hrefl s, by simp, h, rfl⟩
  | succ left ih =>
    rw [Retry.attempt] at h
    obtain ⟨t₁, r₁, s₁, t₂, h₁, h₂, rfl⟩ := of_bind h
    have hR₁ := h₁.related hrefl htrans henv hanswer
    cases r₁ with
    | ok a =>
      obtain ⟨rfl, rfl, hs⟩ := of_pure h₂
      exact ⟨s, [], t₁, hrefl s, by simp, h₁.trail hs, by simp⟩
    | error e =>
      simp only at h₂
      split at h₂
      · obtain ⟨t₃, _, s₂, t₄, h₃, h₄, rfl⟩ := of_bind h₂
        have hR₂ := h₃.related hrefl htrans henv hanswer
        have hq₃ : ∀ x ∈ t₃, quiet x := by
          obtain ⟨-, -, -, rfl, -⟩ := of_query h₃
          exact List.forall_mem_singleton.mpr (hpause _ _)
        obtain ⟨s₃, t₅, t₆, hR, hq, hc, rfl⟩ := ih _ h₄
        refine ⟨s₃, t₁ ++ (t₃ ++ t₅), t₆, htrans hR₁ (htrans hR₂ hR), ?_, hc, by simp⟩
        simp only [List.mem_append]
        rintro x (hx | hx | hx)
        · exact hfail h₁ x hx
        · exact hq₃ x hx
        · exact hq x hx
      · obtain ⟨rfl, rfl, hs⟩ := of_pure h₂
        exact ⟨s, [], t₁, hrefl s, by simp, h₁.trail hs, by simp⟩

end Attempts

end Course

end ReviewQuorum
