import ReviewQuorum.Command
import ReviewQuorum.Permission

/-! # The ledger of a change request

The policy of a change request is what its commands have made of the initial one. A `Ledger` carries
the commands out one after another: a permitted command gives the next policy, a refused one leaves
the policy as it is, and each leaves a ruling. `Ledger.replay` puts the commands in order first and
asks the permission rules. -/

namespace ReviewQuorum

/-- What became of a command. -/
inductive Decision
  | applied (changed : Bool)
  | denied (reason : Denial)
deriving DecidableEq

/-- A command with what became of it and the policies before and after. -/
structure Ruling where
  source : Source
  actor : Account
  request : Request
  before : Policy
  after : Policy
  decision : Decision
deriving DecidableEq

/-- Whether the command was carried out. -/
def Ruling.isApplied (r : Ruling) : Bool :=
  match r.decision with
  | .applied _ => true
  | .denied _ => false

/-- The policy of a change request and how it came about. -/
structure Ledger where
  initial : Policy
  policy : Policy
  rulings : List Ruling
deriving DecidableEq

namespace Ledger

/-- The ledger without commands. -/
def start (initial : Policy) : Ledger := ⟨initial, initial, []⟩

/-- The policy and the decision that a permission for a step leads to. -/
def settle (current next : Policy) : Permission → Policy × Decision
  | .allowed => (next, .applied (next != current))
  | .denied reason => (current, .denied reason)

/-- The ruling on a command; `permit` is asked about the policy it would give. -/
def ruling (current : Policy) (c : Command) (permit : Policy → Policy → Permission) : Ruling :=
  let next := current.apply c.request
  let settled := settle current next (permit current next)
  ⟨c.source, c.actor, c.request, current, settled.1, settled.2⟩

/-- Carries one command out. -/
def apply (l : Ledger) (c : Command) (permit : Policy → Policy → Permission) : Ledger :=
  let r := ruling l.policy c permit
  { l with policy := r.after, rulings := l.rulings ++ [r] }

/-- The account behind a command, as the rules see it. -/
def actorOf (author : Account) (roleOf : Account → Option Role) (c : Command) : Actor :=
  ⟨c.actor, roleOf c.actor, c.actor == author⟩

/-- Carries one command out if the rules permit it. -/
def applyByRules (author : Account) (roleOf : Account → Option Role) (l : Ledger) (c : Command) :
    Ledger :=
  l.apply c (actorOf author roleOf c).permission

/-- Carries commands out in their order, as far as the rules permit them. -/
def replay (initial : Policy) (commands : List Command) (author : Account)
    (roleOf : Account → Option Role) : Ledger :=
  (Command.inOrder commands).foldl (applyByRules author roleOf) (start initial)

/-- The first ruling on a command from a source. -/
def rulingFor? (l : Ledger) (s : Source) : Option Ruling := l.rulings.find? fun r => r.source == s

end Ledger

end ReviewQuorum
