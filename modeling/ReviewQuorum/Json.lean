/-! # JSON values

A JSON value keeps the members of an object in their order, repeated names included. Whole numbers
are integers; a number with a fraction or an exponent is kept as it is written.

A text may follow the grammar and still hold what has no value: a number that is too large, a string
with one half of a surrogate pair, an object with such a string among its names, and what is nested
too deep. It is `unreadable`. Whoever looks at it refuses it; whoever passes over it does not. -/

namespace ReviewQuorum

/-- A JSON value. -/
inductive Json
  | null
  | bool (b : Bool)
  | int (n : Int)
  | real (text : String)
  | str (s : String)
  | arr (items : List Json)
  | obj (members : List (String × Json))
  | unreadable
deriving Inhabited

namespace Json

/-- The values of the members with a name. -/
def valuesOf (name : String) (members : List (String × Json)) : List Json :=
  (members.filter fun m => m.1 == name).map (·.2)

/-- The members with other names. -/
def without (name : String) (members : List (String × Json)) : List (String × Json) :=
  members.filter fun m => m.1 != name

/-- Puts a member at its place in an object whose members are in order of name, instead of the
member of the same name. -/
def placeMember (name : String) (v : Json) : List (String × Json) → List (String × Json)
  | [] => [(name, v)]
  | m :: ms =>
    if name < m.1 then (name, v) :: m :: ms
    else if name = m.1 then (name, v) :: ms
    else m :: placeMember name v ms

mutual

/-- The value with the members of every object in order of name, the last of each name. -/
def sorted : Json → Json
  | arr items => arr (sortedItems items)
  | obj members => obj (sortedMembers [] members)
  | v => v

/-- `sorted` of each item. -/
def sortedItems : List Json → List Json
  | [] => []
  | v :: vs => sorted v :: sortedItems vs

/-- Places each member, with `sorted` of its value, among those that have been placed. -/
def sortedMembers (placed : List (String × Json)) : List (String × Json) → List (String × Json)
  | [] => placed
  | (name, v) :: ms => sortedMembers (placeMember name (sorted v) placed) ms

end

mutual

/-- Whether nothing in the value is unreadable. -/
def isReadable : Json → Bool
  | arr items => areReadable items
  | obj members => haveReadable members
  | unreadable => false
  | _ => true

/-- `isReadable` of every item. -/
def areReadable : List Json → Bool
  | [] => true
  | v :: vs => isReadable v && areReadable vs

/-- `isReadable` of the value of every member. -/
def haveReadable : List (String × Json) → Bool
  | [] => true
  | (_, v) :: ms => isReadable v && haveReadable ms

end

end Json

end ReviewQuorum
