import ReviewQuorum.Toml.Scalar

/-! # Reading TOML documents

A document is a sequence of lines. A line is blank, holds an entry or opens a table; behind any of
these a comment may stand. An entry belongs to the table that was opened last. Keys have fewer than
80 parts, and arrays and inline tables are nested less than 80 deep. -/

namespace ReviewQuorum.Toml.Reader

/-- The number that neither the parts of a key nor the depth of a value may reach. -/
def nestingLimit : Nat := 80

/-! ### Keys -/

/-- The characters of a key without quotation marks. -/
def isKeyChar (c : Char) : Bool :=
  ('a' ≤ c && c ≤ 'z') || ('A' ≤ c && c ≤ 'Z') || c.isDigit || c == '-' || c == '_'

/-- Reads one part of a key. -/
def keyPart? : List Char → Option (String × List Char)
  | '"' :: rest => basic? (rest.length + 1) [] rest
  | '\'' :: rest => literal? rest
  | cs =>
    let name := cs.takeWhile isKeyChar
    if name.isEmpty then none else some (String.ofList name, cs.dropWhile isKeyChar)

/-- Reads the parts of a key, with blanks around them; `path` holds those before. -/
def parts? : Nat → List String → List Char → Option ((List String × String) × List Char)
  | 0, _, _ => none
  | n + 1, path, cs => do
    let (name, rest) ← keyPart? (skip cs)
    match skip rest with
    | '.' :: rest => parts? n (path ++ [name]) rest
    | rest => some ((path, name), rest)

/-- Reads a key: the path to its table, and its name there. -/
def key? (cs : List Char) : Option ((List String × String) × List Char) :=
  parts? (nestingLimit - 1) [] cs

/-! ### Values -/

/-- Passes over a comment, if there is one. -/
def skipComment? : List Char → Option (List Char)
  | '#' :: cs =>
    let rest := cs.dropWhile isPrintable
    if rest.isEmpty || (newline? rest).isSome then some rest else none
  | cs => some cs

/-- Passes over blanks, line ends and comments. -/
def skipAll : Nat → List Char → List Char
  | 0, cs => cs
  | n + 1, cs =>
    match skipLines cs with
    | '#' :: rest =>
      match skipComment? ('#' :: rest) with
      | some rest => skipAll n rest
      | none => '#' :: rest
    | cs => cs

/-- Passes over all that may stand between the items of an array. -/
def skipBetween (cs : List Char) : List Char := skipAll (cs.length + 1) cs

/-- Reads the items of an array up to its bracket; a comma may stand behind the last one. -/
def items? (value? : List Char → Option (Toml × List Char)) :
    Nat → List Toml → List Char → Option (List Toml × List Char)
  | 0, _, _ => none
  | n + 1, seen, cs =>
    match skipBetween cs with
    | ']' :: rest => some (seen.reverse, rest)
    | cs => do
      let (v, rest) ← value? cs
      match skipBetween rest with
      | ',' :: rest => items? value? n (v :: seen) rest
      | ']' :: rest => some ((v :: seen).reverse, rest)
      | _ => none

/-- Reads a key and its value. -/
def entry? (value? : List Char → Option (Toml × List Char)) (cs : List Char) :
    Option (((List String × String) × Toml) × List Char) := do
  let (key, rest) ← key? cs
  match rest with
  | '=' :: rest =>
    let (v, rest) ← value? (skip rest)
    some ((key, v), rest)
  | _ => none

/-- Reads the entries of an inline table up to its brace. -/
def entries? (value? : List Char → Option (Toml × List Char)) :
    Nat → TomlTable → List Char → Option (TomlTable × List Char)
  | 0, _, _ => none
  | n + 1, t, cs => do
    let (((path, name), v), rest) ← entry? value? cs
    let t ← t.addEntry path name v
    match skip rest with
    | ',' :: rest => entries? value? n t rest
    | '\x7d' :: rest => some (t, rest)
    | _ => none

/-- Reads what follows the brace of an inline table. -/
def inlineTable? (value? : List Char → Option (Toml × List Char)) (cs : List Char) :
    Option (Toml × List Char) :=
  match skip cs with
  | '\x7d' :: rest => some (.table .inlined [], rest)
  | cs =>
    (entries? value? (cs.length + 1) (.empty .inlined) cs).map fun (t, rest) => (t.value, rest)

/-- Reads a value whose arrays and inline tables are nested no deeper than a bound. -/
def value? : Nat → List Char → Option (Toml × List Char)
  | depth, cs =>
    match cs with
    | 't' :: 'r' :: 'u' :: 'e' :: rest => some (.bool true, rest)
    | 'f' :: 'a' :: 'l' :: 's' :: 'e' :: rest => some (.bool false, rest)
    | '"' :: _ => (string? cs).map fun (s, rest) => (.str s, rest)
    | '\'' :: _ => (string? cs).map fun (s, rest) => (.str s, rest)
    | '[' :: rest =>
      match depth with
      | 0 => none
      | d + 1 => (items? (value? d) (rest.length + 1) [] rest).map fun (vs, rest) => (.arr vs, rest)
    | '\x7b' :: rest =>
      match depth with
      | 0 => none
      | d + 1 => inlineTable? (value? d) rest
    | cs => timeOrNumber? cs

/-! ### Documents -/

/-- A document that has been read in part: its tables, and the path of the one that was opened last.
-/
structure Draft where
  root : TomlTable
  opened : List String

/-- Passes over what may stand at the end of a line, and over the line end. -/
def lineEnd? (cs : List Char) : Option (List Char) := do
  let rest ← skipComment? (skip cs)
  match rest with
  | [] => some []
  | _ => newline? rest

/-- Reads the line that opens the next table of an array, behind its brackets. -/
def itemHeader? (d : Draft) (cs : List Char) : Option (Draft × List Char) := do
  let ((path, name), rest) ← key? cs
  let rest ← lineEnd? (← Text.dropPrefix? [']', ']'] rest)
  let root ← d.root.openItem path name
  some (⟨root, path ++ [name]⟩, rest)

/-- Reads the line that opens a table, behind its bracket. -/
def tableHeader? (d : Draft) (cs : List Char) : Option (Draft × List Char) := do
  let ((path, name), rest) ← key? cs
  let rest ← lineEnd? (← Text.dropPrefix? [']'] rest)
  let root ← d.root.openTable path name
  some (⟨root, path ++ [name]⟩, rest)

/-- Reads the line of an entry. -/
def entryLine? (d : Draft) (cs : List Char) : Option (Draft × List Char) := do
  let (((path, name), v), rest) ← entry? (value? (nestingLimit - 1)) cs
  let rest ← lineEnd? rest
  let root ← TomlTable.within false (TomlTable.addEntry path name v) d.opened d.root
  some (⟨root, d.opened⟩, rest)

/-- Reads one line, behind its blanks. -/
def line? (d : Draft) (cs : List Char) : Option (Draft × List Char) :=
  match cs with
  | '#' :: _ => (lineEnd? cs).map fun rest => (d, rest)
  | '\n' :: _ => (lineEnd? cs).map fun rest => (d, rest)
  | '\r' :: _ => (lineEnd? cs).map fun rest => (d, rest)
  | '[' :: '[' :: rest => itemHeader? d rest
  | '[' :: rest => tableHeader? d rest
  | _ => entryLine? d cs

/-- Reads all lines, no more than a bound. -/
def lines? : Nat → Draft → List Char → Option TomlTable
  | 0, _, _ => none
  | n + 1, d, cs =>
    match skip cs with
    | [] => some d.root
    | cs => do
      let (d, rest) ← line? d cs
      lines? n d rest

end ReviewQuorum.Toml.Reader

namespace ReviewQuorum.TomlTable

/-- The mark that may stand in front of a document to tell its encoding. -/
def byteOrderMark : Char := '\ufeff'

/-- The table of a document. -/
def ofText? (s : String) : Option TomlTable :=
  let cs := s.toList
  let cs := if cs.head? = some byteOrderMark then cs.tail else cs
  Toml.Reader.lines? (cs.length + 1) ⟨.empty .header, []⟩ cs

end ReviewQuorum.TomlTable
