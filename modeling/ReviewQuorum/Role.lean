import ReviewQuorum.Dict

/-! # Roles and who holds them

A role is a standing in the project. The five roles are in a line, `contributors < authors <
committers < reviewers < lead`, and who holds a role counts as holding every role below it
(`Role.satisfies`). A role has one name and, but for the lead, an alias in the singular; both are
accepted wherever a role is read. A `RoleTable` says which accounts hold which role. -/

namespace ReviewQuorum

/-- The name of an account. -/
abbrev Account := String

/-- A standing in the project. -/
inductive Role
  | contributors
  | authors
  | committers
  | reviewers
  | lead
deriving DecidableEq, Inhabited

namespace Role

/-- The place of a role in the line, from the lowest. -/
def standing : Role → Nat
  | contributors => 0
  | authors => 1
  | committers => 2
  | reviewers => 3
  | lead => 4

instance : LE Role := ⟨fun a b => a.standing ≤ b.standing⟩

instance : LT Role := ⟨fun a b => a.standing < b.standing⟩

instance : DecidableLE Role := fun a b => inferInstanceAs (Decidable (a.standing ≤ b.standing))

instance : DecidableLT Role := fun a b => inferInstanceAs (Decidable (a.standing < b.standing))

theorem le_def {a b : Role} : a ≤ b ↔ a.standing ≤ b.standing := Iff.rfl

theorem lt_def {a b : Role} : a < b ↔ a.standing < b.standing := Iff.rfl

/-- The roles, highest first. -/
def all : List Role := [lead, reviewers, committers, authors, contributors]

theorem mem_all (r : Role) : r ∈ all := by cases r <;> decide

/-- The name of a role. -/
def name : Role → String
  | contributors => "contributors"
  | authors => "authors"
  | committers => "committers"
  | reviewers => "reviewers"
  | lead => "lead"

/-- The names under which a role is read: its own and its alias in the singular. -/
def names : Role → List String
  | contributors => ["contributors", "contributor"]
  | authors => ["authors", "author"]
  | committers => ["committers", "committer"]
  | reviewers => ["reviewers", "reviewer"]
  | lead => ["lead"]

/-- The role that a name stands for. -/
def ofName? (s : String) : Option Role := all.find? fun r => r.names.contains s

@[simp] theorem ofName?_name (r : Role) : ofName? r.name = some r := by cases r <;> decide

/-- Whether who holds `held` counts as holding `required`. -/
def satisfies (held required : Role) : Bool := required ≤ held

theorem satisfies_iff {held required : Role} :
    held.satisfies required = true ↔ required ≤ held := by
  simp [satisfies]

/-- The roles that a role satisfies, highest first. -/
def satisfied (r : Role) : List Role := all.filter r.satisfies

/-- The role of a command that names none. -/
def default : Role := authors

end Role

/-- Which accounts hold which role. -/
structure RoleTable where
  roles : Dict Role
deriving DecidableEq, Inhabited

namespace RoleTable

/-- The table that gives no role to anybody. -/
def empty : RoleTable := ⟨Dict.empty⟩

/-- The role of an account, if the table has one. -/
def roleOf (t : RoleTable) (a : Account) : Option Role := t.roles.get? a

/-- Gives a role to an account, instead of the one it had. -/
def insert (t : RoleTable) (a : Account) (r : Role) : RoleTable := ⟨t.roles.insert a r⟩

/-- Takes the role of an account away. -/
def erase (t : RoleTable) (a : Account) : RoleTable := ⟨t.roles.erase a⟩

/-- The number of accounts that hold a role. -/
def size (t : RoleTable) : Nat := t.roles.size

/-- Whether nobody holds a role. -/
def isEmpty (t : RoleTable) : Bool := t.roles.isEmpty

@[simp] theorem roleOf_empty (a : Account) : empty.roleOf a = none := rfl

theorem roleOf_insert (t : RoleTable) (a : Account) (r : Role) (b : Account) :
    (t.insert a r).roleOf b = if a = b then some r else t.roleOf b := by
  simp [insert, roleOf, Dict.get?_insert]

end RoleTable

end ReviewQuorum
