import ReviewQuorum.Json
import ReviewQuorum.Text.Decimal

/-! # Writing JSON

`Json.compact` writes a value without blanks. `Json.pretty` puts every item and member on a line of
its own, indented by two blanks for each level; empty arrays and objects stay on their line. In
strings the quotation mark, the backslash and control characters are escaped, and nothing else. What
is unreadable is written as `null`. -/

namespace ReviewQuorum.Json

/-- The characters of a string between its quotation marks. -/
def escapeChar (c : Char) : List Char :=
  if c = '"' then ['\\', '"']
  else if c = '\\' then ['\\', '\\']
  else if c = '\n' then ['\\', 'n']
  else if c = '\r' then ['\\', 'r']
  else if c = '\t' then ['\\', 't']
  else if c.toNat = 8 then ['\\', 'b']
  else if c.toNat = 12 then ['\\', 'f']
  else if c.toNat < 32 then
    ['\\', 'u', '0', '0', Nat.digitChar (c.toNat / 16), Nat.digitChar (c.toNat % 16)]
  else [c]

/-- A string with its quotation marks. -/
def quote (s : String) : String := "\"" ++ String.ofList (s.toList.flatMap escapeChar) ++ "\""

mutual

/-- The value on one line. -/
def compact : Json → String
  | null => "null"
  | bool true => "true"
  | bool false => "false"
  | int n => Decimal.ofInt n
  | real text => text
  | str s => quote s
  | arr items => "[" ++ String.intercalate "," (compactItems items) ++ "]"
  | obj members => "\x7b" ++ String.intercalate "," (compactMembers members) ++ "\x7d"
  | unreadable => "null"

/-- Each item on one line. -/
def compactItems : List Json → List String
  | [] => []
  | v :: vs => compact v :: compactItems vs

/-- Each member on one line. -/
def compactMembers : List (String × Json) → List String
  | [] => []
  | (name, v) :: ms => (quote name ++ ":" ++ compact v) :: compactMembers ms

end

/-- A line end and the blanks before a line of a level. -/
def newline (level : Nat) : String := String.ofList ('\n' :: List.replicate (2 * level) ' ')

/-- Parts between brackets, each on a line of its own. -/
def block (opening closing : String) (level : Nat) (parts : List String) : String :=
  if parts.isEmpty then opening ++ closing
  else opening ++ newline (level + 1) ++ String.intercalate ("," ++ newline (level + 1)) parts ++
    newline level ++ closing

mutual

/-- The value on indented lines; `level` is the depth of the line that it starts on. -/
def prettyAt (level : Nat) : Json → String
  | arr items => block "[" "]" level (prettyItems (level + 1) items)
  | obj members => block "\x7b" "\x7d" level (prettyMembers (level + 1) members)
  | null => "null"
  | unreadable => "null"
  | bool true => "true"
  | bool false => "false"
  | int n => Decimal.ofInt n
  | real text => text
  | str s => quote s

/-- Each item on indented lines. -/
def prettyItems (level : Nat) : List Json → List String
  | [] => []
  | v :: vs => prettyAt level v :: prettyItems level vs

/-- Each member on indented lines. -/
def prettyMembers (level : Nat) : List (String × Json) → List String
  | [] => []
  | (name, v) :: ms => (quote name ++ ": " ++ prettyAt level v) :: prettyMembers level ms

end

/-- The value on indented lines. -/
def pretty (v : Json) : String := prettyAt 0 v

end ReviewQuorum.Json
