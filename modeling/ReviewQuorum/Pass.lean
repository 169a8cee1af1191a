import ReviewQuorum.Plan
import ReviewQuorum.Program

/-! # Passes

A pass is a program that asks about one change request. It fetches the change request, its comments
and its reviews, resolves the roles of the accounts involved, and asks whether its ticket is still
the latest one. If it is not, a newer pass will do the work and this one ends as superseded; so far
it has only read. Otherwise it posts the replies of its plan and sets the label. Every call is
retried, and a call that fails for good ends the pass. -/

namespace ReviewQuorum

/-- What a pass asks. -/
inductive Query
  | changeRequest
  | comments
  | reviews
  | roleOf (account : Account)
  | isLatest
  | postComment (body : String)
  | setLabel (label : String) (present : Bool)
  | pause (ms : Nat)

/-- The answers to what a pass asks. Calls to collaborators may fail. -/
abbrev Query.Answer : Query → Type
  | changeRequest => Except Failure ChangeRequest
  | comments => Except Failure (List Comment)
  | reviews => Except Failure (List Review)
  | roleOf _ => Except Failure (Option Role)
  | isLatest => Bool
  | postComment _ => Except Failure Unit
  | setLabel _ _ => Except Failure Unit
  | pause _ => Unit

/-- A program with the questions of a pass. -/
abbrev Inquiry (α : Type) := Program Query Query.Answer α

/-- Asks one question. -/
def inquire (q : Query) : Inquiry q.Answer := Program.query q

/-- A program that may end with a failure. -/
abbrev Attempt (α : Type) := ExceptT Failure (Program Query Query.Answer) α

/-- How a pass ends unless a call fails. -/
inductive PassEnd
  | superseded
  | completed (plan : Plan)
deriving DecidableEq

namespace Pass

/-- Makes a call with retries. -/
def call {α : Type} (retry : Retry) (q : Inquiry (Except Failure α)) : Attempt α :=
  ExceptT.mk (retry.run (fun ms => inquire (.pause ms)) q)

/-- Resolves the role of one account, on top of those that have been resolved. -/
def resolveRole (retry : Retry) (t : RoleTable) (account : Account) : Attempt RoleTable := do
  match ← call retry (inquire (.roleOf account)) with
  | none => pure t
  | some role => pure (t.insert account role)

/-- Resolves the roles of accounts, one after another. -/
def resolveRoles (retry : Retry) (accounts : List Account) : Attempt RoleTable :=
  accounts.foldlM (resolveRole retry) RoleTable.empty

/-- Gathers the facts. -/
def gather (settings : Settings) (retry : Retry) : Attempt Facts := do
  let change ← call retry (inquire .changeRequest)
  let comments ← call retry (inquire .comments)
  let reviews ← call retry (inquire .reviews)
  let commands := Invocation.commands (Invocation.extract change comments settings.botAccount)
  let roles ← resolveRoles retry (accountsInvolved change commands reviews)
  pure ⟨change, comments, reviews, roles⟩

/-- Posts replies, one after another. -/
def postAll (retry : Retry) : List (String × String) → Attempt Unit
  | [] => pure ()
  | r :: rs => do
    call retry (inquire (.postComment r.2))
    postAll retry rs

/-- Sets the label, if it has to change. -/
def showReadiness (settings : Settings) (retry : Retry) : Option Bool → Attempt Unit
  | none => pure ()
  | some present => call retry (inquire (.setLabel settings.readyLabel present))

/-- Carries a plan out. -/
def carryOut (settings : Settings) (retry : Retry) (plan : Plan) : Attempt Unit := do
  postAll retry plan.replies
  showReadiness settings retry plan.labelChange

/-- The pass over a change request of which `context` is remembered. -/
def program (settings : Settings) (retry : Retry) (context : Context) : Attempt PassEnd := do
  let facts ← gather settings retry
  if ← (inquire .isLatest : Inquiry Bool) then
    let plan := Plan.make settings context facts
    carryOut settings retry plan
    pure (.completed plan)
  else pure .superseded

end Pass

end ReviewQuorum
