import ReviewQuorum.Dict
import ReviewQuorum.Json
import ReviewQuorum.RoleMap
import ReviewQuorum.Timestamp.Text

/-! # The wire form of values

Values are saved and sent as JSON. `Wire` gives a type its two directions, `encode` and `decode?`.

A record is an object; members with other names are passed over, and a name of the record that
stands there twice is an error. A record may also be the array of its members in their order. A
word, such as the name of a role, is a string, or an object with the word as its only name and
`null` as its value. A tagged value is an object with the tag among its members, or an array that
begins with the tag; the rest of it holds what the tag calls for.

What is passed over need not be readable, but what is set aside does: the rest of a tagged value,
until its tag is known, and all members of a flat record, which shares its object with another one.
In the rest of a tagged value the object of a word may also hold an empty object for `null`. -/

namespace ReviewQuorum

/-- A type with a form in JSON. -/
class Wire (α : Type) where
  encode : α → Json
  decode? : Json → Option α

namespace Wire

/-! ### Plain values -/

/-- A natural number of at most so many bits. -/
def nat? (bits : Nat) : Json → Option Nat
  | .int n => if 0 ≤ n ∧ n < Nat.pow 2 bits then some n.toNat else none
  | _ => none

/-- An integer of 64 bits with a sign. -/
def int64? : Json → Option Int
  | .int n => if -9223372036854775808 ≤ n ∧ n < 9223372036854775808 then some n else none
  | _ => none

/-- A string. -/
def string? : Json → Option String
  | .str s => some s
  | _ => none

/-- A truth value. -/
def bool? : Json → Option Bool
  | .bool b => some b
  | _ => none

/-- Each item of an array. -/
def list? {α : Type} (decode? : Json → Option α) : Json → Option (List α)
  | .arr items => items.mapM decode?
  | _ => none

/-- `null`, or a value. -/
def option? {α : Type} (decode? : Json → Option α) : Json → Option (Option α)
  | .null => some none
  | v => (decode? v).map some

/-- An array of strings, as the set of them. -/
def names? (v : Json) : Option NameSet := (list? string? v).map NameSet.ofNames

/-- The values of an object's members, with their names. -/
def members? {κ α : Type} (key? : String → Option κ) (decode? : Json → Option α) :
    Json → Option (List (κ × α))
  | .obj members => members.mapM fun m => do
    let k ← key? m.1
    let v ← decode? m.2
    some (k, v)
  | _ => none

/-- An object whose names are keys; the last value of a key counts. -/
def dict? {α : Type} (decode? : Json → Option α) (v : Json) : Option (Dict α) :=
  (members? some decode? v).map Dict.ofList

/-- An object whose names are roles; the last value of a role counts. -/
def roleMap? {α : Type} (decode? : Json → Option α) (v : Json) : Option (RoleMap α) :=
  (members? Role.ofName? decode? v).map RoleMap.ofList

/-- A word. -/
def word? : Json → Option String
  | .str s => some s
  | .obj [(s, .null)] => some s
  | _ => none

/-- A number as JSON. -/
def ofNat (n : Nat) : Json := .int n

/-- `null`, or the form of a value. -/
def ofOption {α : Type} (encode : α → Json) : Option α → Json
  | none => .null
  | some v => encode v

/-- A map from strings as an object. -/
def ofDict {α : Type} (encode : α → Json) (d : Dict α) : Json :=
  .obj (d.entries.map fun e => (e.1, encode e.2))

/-- A map from roles as an object. -/
def ofRoleMap {α : Type} (encode : α → Json) (m : RoleMap α) : Json :=
  .obj (m.toList.map fun e => (e.1.name, encode e.2))

/-- A set of strings as an array. -/
def ofNames (s : NameSet) : Json := .arr (s.toNames.map .str)

instance : Wire Timestamp where
  encode t := .str t.toText
  decode? v := string? v >>= Timestamp.ofText?

/-! ### Records -/

/-- What has not been read of a record: members with names, or items in their order. -/
inductive Members
  | named (members : List (String × Json))
  | placed (items : List Json)

/-- The members of a record. -/
def Members.ofJson? : Json → Option Members
  | .obj members => some (.named members)
  | .arr items => some (.placed items)
  | _ => none

/-- Whether nothing is left that the record has no place for. -/
def Members.isRead : Members → Bool
  | .named _ => true
  | .placed items => items.isEmpty

/-- Whether everything that is left is readable. -/
def Members.isReadable : Members → Bool
  | .named members => Json.haveReadable members
  | .placed items => Json.areReadable items

/-- Reads members of a record. -/
abbrev Record (α : Type) := StateT Members Option α

namespace Record

/-- The next member, which is called `name` if members have names; none if it is not there. -/
def next (name : String) : Record (Option Json) := fun ms =>
  match ms with
  | .named members =>
    match Json.valuesOf name members with
    | [] => some (none, .named members)
    | [v] => some (some v, .named (Json.without name members))
    | _ => none
  | .placed [] => some (none, .placed [])
  | .placed (v :: rest) => some (some v, .placed rest)

/-- Whether members have names. -/
def hasNames : Record Bool := fun ms =>
  match ms with
  | .named _ => some (true, ms)
  | .placed _ => some (false, ms)

/-- A member that has to be there. -/
def required {α : Type} (name : String) (decode? : Json → Option α) : Record α := do
  match ← next name with
  | none => failure
  | some v => decode? v

/-- A member that has a value of its own if it is not there. -/
def withDefault {α : Type} (name : String) (default : α) (decode? : Json → Option α) :
    Record α := do
  match ← next name with
  | none => pure default
  | some v => decode? v

/-- A member that may be `null`, or not be there if members have names. -/
def nullable {α : Type} (name : String) (decode? : Json → Option α) : Record (Option α) := do
  match ← next name with
  | none => if ← hasNames then pure none else failure
  | some v => option? decode? v

/-- Reads all of a record. -/
def run? {α : Type} (r : Record α) (v : Json) : Option α := do
  let ms ← Members.ofJson? v
  let (a, rest) ← StateT.run r ms
  if rest.isRead then some a else none

/-- Reads all of a flat record, which has to be an object. -/
def runFlat? {α : Type} (r : Record α) : Json → Option α
  | .obj members => do
    let (a, rest) ← StateT.run r (.named members)
    if rest.isReadable then some a else none
  | _ => none

end Record

/-! ### Tagged values -/

mutual

/-- The value with `null` for the empty object that an only member holds. -/
def withNulls : Json → Json
  | .obj [(s, .obj [])] => .obj [(s, .null)]
  | .obj members => .obj (membersWithNulls members)
  | .arr items => .arr (itemsWithNulls items)
  | v => v

/-- `withNulls` of each item. -/
def itemsWithNulls : List Json → List Json
  | [] => []
  | v :: vs => withNulls v :: itemsWithNulls vs

/-- `withNulls` of the value of each member. -/
def membersWithNulls : List (String × Json) → List (String × Json)
  | [] => []
  | (name, v) :: ms => (name, withNulls v) :: membersWithNulls ms

end

/-- The tag of a tagged value and the rest as it is written. -/
def split? (tag : String) : Json → Option (Json × Json)
  | .obj members =>
    match Json.valuesOf tag members with
    | [v] => some (v, .obj (Json.without tag members))
    | _ => none
  | .arr (v :: rest) => some (v, .arr rest)
  | _ => none

/-- The tag of a tagged value and the rest, which is set aside. Only a word has a place for the
`null` of an only member. -/
def tagged? (tag : String) (v : Json) : Option (Json × Json) := do
  let (v, rest) ← split? tag v
  if rest.isReadable then some (v, withNulls rest) else none

/-- The rest of a tagged value whose tag calls for nothing. -/
def nothing? : Json → Option Unit
  | .obj _ => some ()
  | .arr [] => some ()
  | _ => none

end Wire

end ReviewQuorum
