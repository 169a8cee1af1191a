import ReviewQuorum.Moment
import ReviewQuorum.Request

/-! # Commands and their order

A command is a request with the account that makes it, the text it was read from and the place where
it was found: the description of a change request or one of its comments. Commands are taken in
order: the description's first, then by moment. -/

namespace ReviewQuorum

/-- Where a command was found. -/
inductive Source
  | description
  | comment (id : String)
deriving DecidableEq

namespace Source

/-- The key under which replies refer to a source. -/
def key : Source → String
  | description => "description"
  | comment id => "comment:" ++ id

/-- The description comes before every comment. -/
def rank : Source → Nat
  | description => 0
  | comment _ => 1

end Source

/-- A request as it was made. -/
structure Command where
  actor : Account
  request : Request
  rawText : String
  source : Source
  moment : Moment
deriving DecidableEq

namespace Command

/-- Whether a command is not taken after another one. -/
def notAfter (a b : Command) : Bool :=
  a.source.rank < b.source.rank ||
    (a.source.rank == b.source.rank && a.moment.le b.moment)

/-- The commands in the order in which they are taken. Commands that tie keep their order. -/
def inOrder (cs : List Command) : List Command := cs.mergeSort notAfter

theorem notAfter_iff {a b : Command} : a.notAfter b = true ↔ a.source.rank < b.source.rank ∨
    (a.source.rank = b.source.rank ∧ a.moment.le b.moment = true) := by simp [notAfter]

theorem notAfter_trans (a b c : Command) (hab : a.notAfter b = true) (hbc : b.notAfter c = true) :
    a.notAfter c = true := by
  rw [notAfter_iff] at *
  rcases hab with hab | ⟨hab, h1⟩ <;> rcases hbc with hbc | ⟨hbc, h2⟩
  · exact Or.inl (by omega)
  · exact Or.inl (by omega)
  · exact Or.inl (by omega)
  · exact Or.inr ⟨by omega, Moment.le_trans h1 h2⟩

theorem notAfter_total (a b : Command) : (a.notAfter b || b.notAfter a) = true := by
  have h := Moment.le_total a.moment b.moment
  simp only [Bool.or_eq_true, notAfter_iff] at *
  rcases Nat.lt_trichotomy a.source.rank b.source.rank with h1 | h1 | h1
  · exact Or.inl (Or.inl h1)
  · rcases h with h | h
    · exact Or.inl (Or.inr ⟨h1, h⟩)
    · exact Or.inr (Or.inr ⟨h1.symm, h⟩)
  · exact Or.inr (Or.inl h1)

theorem inOrder_perm (cs : List Command) : (inOrder cs).Perm cs := List.mergeSort_perm _ _

theorem pairwise_inOrder (cs : List Command) :
    (inOrder cs).Pairwise fun a b => a.notAfter b = true :=
  List.pairwise_mergeSort notAfter_trans notAfter_total cs

theorem inOrder_of_pairwise {cs : List Command}
    (h : cs.Pairwise fun a b => a.notAfter b = true) : inOrder cs = cs :=
  List.mergeSort_of_pairwise h

end Command

end ReviewQuorum
