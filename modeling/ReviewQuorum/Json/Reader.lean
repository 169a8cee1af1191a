import ReviewQuorum.Json
import ReviewQuorum.Json.Magnitude
import ReviewQuorum.Text.Hex

/-! # Reading JSON

The grammar of RFC 8259 without extensions: one value with blanks around it and nothing else, no
leading zeros, no control characters in strings. A text outside the grammar has no value at all.
Within it a number that is too large, a string with an unpaired surrogate, an object that has such a
string among its names, and an array or object inside of 127 others are unreadable.

Each function reads from the front of a list of characters and returns what it read with the rest;
a string that is unreadable is read as `none`. The loops take a bound on their number of steps; for
all of them the length of the text is enough, and a value hands its own bound down. -/

namespace ReviewQuorum.Json.Reader

/-- The blanks between tokens. -/
def isSpace (c : Char) : Bool := c == ' ' || c == '\t' || c == '\n' || c == '\r'

/-- Passes over blanks. -/
def skip (cs : List Char) : List Char := cs.dropWhile isSpace

/-- Reads the four hexadecimal digits of a code unit. -/
def codeUnit? : List Char → Option (Nat × List Char)
  | a :: b :: c :: d :: rest => (Hex.number? 0 [a, b, c, d]).map fun n => (n, rest)
  | _ => none

/-- Reads the escape of the second unit of a surrogate pair, if there is one. -/
def lowSurrogate? : List Char → Option (Nat × List Char)
  | '\\' :: 'u' :: rest =>
    match codeUnit? rest with
    | some (v, rest) => if 0xDC00 ≤ v ∧ v ≤ 0xDFFF then some (v, rest) else none
    | none => none
  | _ => none

/-- Reads an escaped character by its code units: one, or the two of a surrogate pair. A surrogate
without its other half is no character. -/
def unicodeEscape? (cs : List Char) : Option (Option Char × List Char) := do
  let (u, rest) ← codeUnit? cs
  if u < 0xD800 ∨ 0xDFFF < u then some (some (Char.ofNat u), rest)
  else if 0xDC00 ≤ u then some (none, rest)
  else
    match lowSurrogate? rest with
    | some (v, rest) =>
      some (some (Char.ofNat (0x10000 + (u - 0xD800) * 0x400 + (v - 0xDC00))), rest)
    | none => some (none, rest)

/-- Reads what follows a backslash. -/
def escape? : List Char → Option (Option Char × List Char)
  | '"' :: rest => some (some '"', rest)
  | '\\' :: rest => some (some '\\', rest)
  | '/' :: rest => some (some '/', rest)
  | 'b' :: rest => some (some '\x08', rest)
  | 'f' :: rest => some (some '\x0c', rest)
  | 'n' :: rest => some (some '\n', rest)
  | 'r' :: rest => some (some '\r', rest)
  | 't' :: rest => some (some '\t', rest)
  | 'u' :: rest => unicodeEscape? rest
  | _ => none

/-- Puts a character behind those that have been seen, the last of which comes first. -/
def push (seen : Option (List Char)) (c : Option Char) : Option (List Char) :=
  match seen, c with
  | some cs, some c => some (c :: cs)
  | _, _ => none

/-- Reads the rest of a string; `seen` is its beginning, last character first. -/
def string? : Nat → Option (List Char) → List Char → Option (Option String × List Char)
  | 0, _, _ => none
  | _, _, [] => none
  | _, seen, '"' :: rest => some (seen.map fun cs => String.ofList cs.reverse, rest)
  | n + 1, seen, '\\' :: rest => do
    let (c, rest) ← escape? rest
    string? n (push seen c) rest
  | n + 1, seen, c :: rest => if c.toNat < 32 then none else string? n (push seen (some c)) rest

/-- Reads one or more digits. -/
def digits? (cs : List Char) : Option (List Char × List Char) :=
  let ds := cs.takeWhile Char.isDigit
  if ds.isEmpty then none else some (ds, cs.dropWhile Char.isDigit)

/-- Reads the digits before a decimal point: a zero, or digits that do not begin with one. -/
def integerPart? (cs : List Char) : Option (List Char × List Char) :=
  match digits? cs with
  | some ('0' :: _ :: _, _) => none
  | r => r

/-- Reads a decimal point and digits, if there is a point. -/
def fractionPart? : List Char → Option (List Char × List Char)
  | '.' :: cs => (digits? cs).map fun (ds, rest) => ('.' :: ds, rest)
  | cs => some ([], cs)

/-- Reads the sign of an exponent, if there is one. -/
def exponentSign : List Char → List Char × List Char
  | '+' :: cs => (['+'], cs)
  | '-' :: cs => (['-'], cs)
  | cs => ([], cs)

/-- Reads an exponent, if there is one, and gives its text and its value. -/
def exponentPart? : List Char → Option ((List Char × Int) × List Char)
  | [] => some (([], 0), [])
  | c :: cs =>
    if c = 'e' ∨ c = 'E' then
      let (sign, cs) := exponentSign cs
      (digits? cs).map fun (ds, rest) =>
        let n := ds.foldl Decimal.pushDigit 0
        ((c :: sign ++ ds, if sign = ['-'] then -(n : Int) else n), rest)
    else some (([], 0), c :: cs)

/-- The number that parts make; `exponent` is what the exponent writes, and `power` its value. A
negative zero is no integer. -/
def numberOfParts (negative : Bool) (whole fraction exponent : List Char) (power : Int) : Json :=
  if (Magnitude.ofDigits whole (fraction.drop 1) power).isTooLarge then .unreadable
  else
    let n := whole.foldl Decimal.pushDigit 0
    if fraction.isEmpty && exponent.isEmpty && !(negative && n == 0) then
      .int (if negative then -(n : Int) else n)
    else
      let sign := if negative then ['-'] else []
      .real (String.ofList (sign ++ whole ++ fraction ++ exponent))

/-- Reads a number. -/
def number? (cs : List Char) : Option (Json × List Char) := do
  let (negative, cs) :=
    match cs with
    | '-' :: rest => (true, rest)
    | cs => (false, cs)
  let (whole, cs) ← integerPart? cs
  let (fraction, cs) ← fractionPart? cs
  let ((exponent, power), cs) ← exponentPart? cs
  some (numberOfParts negative whole fraction exponent power, cs)

/-- The value of a string. -/
def ofString : Option String → Json
  | some s => .str s
  | none => .unreadable

/-- The object with some members. -/
def ofMembers (members : List (Option String × Json)) : Json :=
  match members.mapM fun m => m.1.map fun name => (name, m.2) with
  | some members => .obj members
  | none => .unreadable

/-- Reads the items of an array from its second on, up to its bracket. -/
def items? (value? : List Char → Option (Json × List Char)) :
    Nat → List Json → List Char → Option (List Json × List Char)
  | 0, _, _ => none
  | n + 1, seen, cs =>
    match skip cs with
    | ']' :: rest => some (seen.reverse, rest)
    | ',' :: rest => do
      let (v, rest) ← value? rest
      items? value? n (v :: seen) rest
    | _ => none

/-- Reads a member of an object. -/
def member? (value? : List Char → Option (Json × List Char)) (bound : Nat) (cs : List Char) :
    Option ((Option String × Json) × List Char) :=
  match skip cs with
  | '"' :: rest => do
    let (name, rest) ← string? bound (some []) rest
    match skip rest with
    | ':' :: rest => do
      let (v, rest) ← value? rest
      some ((name, v), rest)
    | _ => none
  | _ => none

/-- Reads the members of an object from its second on, up to its brace. -/
def members? (value? : List Char → Option (Json × List Char)) (bound : Nat) :
    Nat → List (Option String × Json) → List Char → Option (List (Option String × Json) × List Char)
  | 0, _, _ => none
  | n + 1, seen, cs =>
    match skip cs with
    | '\x7d' :: rest => some (seen.reverse, rest)
    | ',' :: rest => do
      let (m, rest) ← member? value? bound rest
      members? value? bound n (m :: seen) rest
    | _ => none

/-- Reads what follows the bracket of an array. -/
def array? (value? : List Char → Option (Json × List Char)) (bound : Nat) (cs : List Char) :
    Option (Json × List Char) :=
  match skip cs with
  | ']' :: rest => some (.arr [], rest)
  | cs => do
    let (v, rest) ← value? cs
    let (vs, rest) ← items? value? bound [v] rest
    some (.arr vs, rest)

/-- Reads what follows the brace of an object. -/
def object? (value? : List Char → Option (Json × List Char)) (bound : Nat) (cs : List Char) :
    Option (Json × List Char) :=
  match skip cs with
  | '\x7d' :: rest => some (.obj [], rest)
  | cs => do
    let (m, rest) ← member? value? bound cs
    let (ms, rest) ← members? value? bound bound [m] rest
    some (ofMembers ms, rest)

/-- How deep arrays and objects may be nested. -/
def maxDepth : Nat := 127

/-- An array or object that has been read inside of so many others. -/
def inside (depth : Nat) (v : Json) : Json := if depth < maxDepth then v else .unreadable

/-- Reads a value inside of `depth` arrays and objects. -/
def value? : Nat → Nat → List Char → Option (Json × List Char)
  | 0, _, _ => none
  | n + 1, depth, cs =>
    match skip cs with
    | 'n' :: 'u' :: 'l' :: 'l' :: rest => some (.null, rest)
    | 't' :: 'r' :: 'u' :: 'e' :: rest => some (.bool true, rest)
    | 'f' :: 'a' :: 'l' :: 's' :: 'e' :: rest => some (.bool false, rest)
    | '"' :: rest => (string? n (some []) rest).map fun (s, rest) => (ofString s, rest)
    | '[' :: rest =>
      (array? (value? n (depth + 1)) n rest).map fun (v, rest) => (inside depth v, rest)
    | '\x7b' :: rest =>
      (object? (value? n (depth + 1)) n rest).map fun (v, rest) => (inside depth v, rest)
    | cs => number? cs

end ReviewQuorum.Json.Reader

namespace ReviewQuorum.Json

/-- The value that a text writes. -/
def ofText? (s : String) : Option Json :=
  let cs := s.toList
  match Reader.value? (cs.length + 1) 0 cs with
  | some (v, rest) => if (Reader.skip rest).isEmpty then some v else none
  | none => none

end ReviewQuorum.Json
