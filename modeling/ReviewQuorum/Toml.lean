/-! # TOML tables

A TOML value is a string, a number, a truth value, a time, an array or a table. Whole numbers are
integers; other numbers and times are kept as they are written.

A document builds its tables up line by line, and how a table came about says what may be added to
it later. A table with a header of its own is closed to dotted keys from elsewhere and to a second
header. A table that only the path of a header implies may still get a header, and one that a dotted
key makes takes further dotted keys. An inline table is complete. No entry is ever replaced. -/

namespace ReviewQuorum

/-- How a table came about. -/
inductive TableOrigin
  | header
  | implied
  | dotted
  | inlined
deriving DecidableEq

/-- A TOML value. `tables` is an array whose items are tables with headers of their own. -/
inductive Toml
  | str (s : String)
  | int (n : Int)
  | float (text : String)
  | bool (b : Bool)
  | time (text : String)
  | arr (items : List Toml)
  | table (origin : TableOrigin) (entries : List (String × Toml))
  | tables (items : List (List (String × Toml)))
deriving Inhabited

/-- The entries of a table with its origin. -/
structure TomlTable where
  origin : TableOrigin
  entries : List (String × Toml)

namespace TomlTable

/-- A table without entries. -/
def empty (origin : TableOrigin) : TomlTable := ⟨origin, []⟩

/-- The table as a value. -/
def value (t : TomlTable) : Toml := .table t.origin t.entries

/-- The value of a key. -/
def get? (t : TomlTable) (key : String) : Option Toml :=
  (t.entries.find? fun e => e.1 == key).map (·.2)

/-- Adds an entry at the end. -/
def add (t : TomlTable) (key : String) (v : Toml) : TomlTable :=
  { t with entries := t.entries ++ [(key, v)] }

/-- Replaces the value of a key. -/
def replace (t : TomlTable) (key : String) (v : Toml) : TomlTable :=
  { t with entries := t.entries.map fun e => if e.1 == key then (key, v) else e }

/-- Whether the steps of a path may go through a table, those of a dotted key or those of a header.
-/
def admits (dotted : Bool) (origin : TableOrigin) : Bool :=
  match origin with
  | .inlined => false
  | .header => !dotted
  | .implied => true
  | .dotted => true

/-- Changes the table at the end of a path. The tables on the path are made if they are not there,
and of an array of tables the path goes through the last one. -/
def within (dotted : Bool) (change : TomlTable → Option TomlTable) :
    List String → TomlTable → Option TomlTable
  | [], t => change t
  | key :: path, t =>
    match t.get? key with
    | none => do
      let made ← within dotted change path (empty (if dotted then .dotted else .implied))
      some (t.add key made.value)
    | some (.table origin entries) =>
      if admits dotted origin then do
        let changed ← within dotted change path ⟨origin, entries⟩
        some (t.replace key changed.value)
      else none
    | some (.tables items) => do
      let last ← items.getLast?
      let changed ← within dotted change path ⟨.header, last⟩
      some (t.replace key (.tables (items.dropLast ++ [changed.entries])))
    | some _ => none

/-- Adds the entry of a dotted key: the table at the end of its path, unless the path is empty, has
to be one that dotted keys made, and has to be without the key. -/
def addEntry (path : List String) (key : String) (v : Toml) (t : TomlTable) : Option TomlTable :=
  within true
    (fun t =>
      if (t.origin == .dotted) == path.isEmpty || (t.get? key).isSome then none
      else some (t.add key v))
    path t

/-- Opens the table of a header. -/
def openTable (path : List String) (key : String) (t : TomlTable) : Option TomlTable :=
  within false
    (fun t =>
      match t.get? key with
      | none => some (t.add key (.table .header []))
      | some (.table .implied entries) => some (t.replace key (.table .header entries))
      | some _ => none)
    path t

/-- Opens the next table of an array of tables. -/
def openItem (path : List String) (key : String) (t : TomlTable) : Option TomlTable :=
  within false
    (fun t =>
      match t.get? key with
      | none => some (t.add key (.tables [[]]))
      | some (.tables items) => some (t.replace key (.tables (items ++ [[]])))
      | some _ => none)
    path t

end TomlTable

end ReviewQuorum
