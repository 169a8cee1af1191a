/-! # Programs that ask

A `Program` is a computation that asks questions and goes on with the answers. It does not say who
answers: `Program.run` lets a state answer each question at once, and a program can as well be taken
one question at a time, between those of other programs. -/

namespace ReviewQuorum

/-- A computation that asks questions of type `Q`; the answers to `q` are of type `A q`. -/
inductive Program (Q : Type) (A : Q → Type) (α : Type) : Type
  | done (a : α)
  | ask (q : Q) (next : A q → Program Q A α)

namespace Program

variable {Q : Type} {A : Q → Type} {α β σ : Type}

/-- Goes on with the result of a program. -/
def bind : Program Q A α → (α → Program Q A β) → Program Q A β
  | done a, f => f a
  | ask q next, f => ask q fun a => (next a).bind f

instance : Monad (Program Q A) where
  pure := done
  bind := bind

/-- Asks one question. -/
def query (q : Q) : Program Q A (A q) := ask q done

/-- The result of a program and the state it leaves, if a state answers its questions. -/
def run (answer : (q : Q) → σ → A q × σ) : Program Q A α → σ → α × σ
  | done a, s => (a, s)
  | ask q next, s => (next (answer q s).1).run answer (answer q s).2

@[simp] theorem run_pure (answer : (q : Q) → σ → A q × σ) (a : α) (s : σ) :
    (pure a : Program Q A α).run answer s = (a, s) := rfl

@[simp] theorem run_query (answer : (q : Q) → σ → A q × σ) (q : Q) (s : σ) :
    (query q).run answer s = answer q s := rfl

@[simp] theorem run_bind (answer : (q : Q) → σ → A q × σ) (p : Program Q A α)
    (f : α → Program Q A β) (s : σ) :
    (p >>= f).run answer s = (f (p.run answer s).1).run answer (p.run answer s).2 := by
  change (p.bind f).run answer s = _
  induction p generalizing s with
  | done a => rfl
  | ask q next ih => exact ih _ _

end Program

end ReviewQuorum
