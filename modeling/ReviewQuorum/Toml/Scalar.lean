import ReviewQuorum.Calendar
import ReviewQuorum.Text.Blank
import ReviewQuorum.Text.Decimal
import ReviewQuorum.Text.Double
import ReviewQuorum.Text.Hex
import ReviewQuorum.Toml

/-! # TOML strings, numbers and times

Each function reads from the front of a list of characters and returns what it read with the rest.
Integers have 64 bits and a sign. A float whose nearest double would be positive infinity is no
value. -/

namespace ReviewQuorum.Toml.Reader

/-! ### Strings -/

/-- The characters that may stand in comments and literal strings: tabs, and all others that are no
ASCII control characters. -/
def isPrintable (c : Char) : Bool := c == '\t' || (32 ≤ c.toNat && c.toNat != 127)

/-- Blanks within a line. -/
def isSpace (c : Char) : Bool := c == ' ' || c == '\t'

/-- Passes over blanks within a line. -/
def skip (cs : List Char) : List Char := cs.dropWhile isSpace

/-- What follows a line end, if one is there. -/
def newline? : List Char → Option (List Char)
  | '\n' :: rest => some rest
  | '\r' :: '\n' :: rest => some rest
  | _ => none

/-- Passes over blanks and line ends. -/
def skipLines : List Char → List Char
  | [] => []
  | '\r' :: '\n' :: rest => skipLines rest
  | c :: rest => if isSpace c || c == '\n' then skipLines rest else c :: rest

/-- Reads the character that so many hexadecimal digits stand for. -/
def unicodeEscape? (count : Nat) (cs : List Char) : Option (Char × List Char) := do
  let ds := cs.take count
  if ds.length < count then none
  else
    let n ← Hex.number? 0 ds
    if n.isValidChar then some (Char.ofNat n, cs.drop count) else none

/-- Reads what follows a backslash. -/
def escape? : List Char → Option (Char × List Char)
  | 'b' :: rest => some ('\x08', rest)
  | 't' :: rest => some ('\t', rest)
  | 'n' :: rest => some ('\n', rest)
  | 'f' :: rest => some ('\x0c', rest)
  | 'r' :: rest => some ('\r', rest)
  | '"' :: rest => some ('"', rest)
  | '\\' :: rest => some ('\\', rest)
  | 'u' :: rest => unicodeEscape? 4 rest
  | 'U' :: rest => unicodeEscape? 8 rest
  | _ => none

/-- Reads the rest of a basic string; `seen` is its beginning, last character first. -/
def basic? : Nat → List Char → List Char → Option (String × List Char)
  | 0, _, _ => none
  | _, _, [] => none
  | _, seen, '"' :: rest => some (String.ofList seen.reverse, rest)
  | n + 1, seen, '\\' :: rest => do
    let (c, rest) ← escape? rest
    basic? n (c :: seen) rest
  | n + 1, seen, c :: rest => if isPrintable c then basic? n (c :: seen) rest else none

/-- Reads the rest of a literal string. -/
def literal? (cs : List Char) : Option (String × List Char) :=
  let body := cs.takeWhile (· != '\'')
  match cs.drop body.length with
  | _ :: rest => if body.all isPrintable then some (String.ofList body, rest) else none
  | [] => none

/-- What follows a run of quotation marks in a string of several lines: up to two of them belong to
the string, three close it, and up to two more in front of those belong to it. -/
def closing? (quotes : Nat) : Option (Nat × Bool) :=
  if quotes < 3 then some (quotes, false)
  else if quotes < 6 then some (quotes - 3, true)
  else none

/-- What follows a backslash and blanks at the end of a line: the text from its next character that
is no blank on. -/
def lineBreak? (cs : List Char) : Option (List Char) := (newline? (skip cs)).map skipLines

/-- Reads the rest of a string of several lines, with escapes or without. -/
def multiline? (mark : Char) (escapes : Bool) :
    Nat → List Char → List Char → Option (String × List Char)
  | 0, _, _ => none
  | _, _, [] => none
  | n + 1, seen, c :: rest =>
    if c = mark then
      let quotes := ((c :: rest).takeWhile (· == mark)).length
      match closing? quotes with
      | none => none
      | some (kept, closes) =>
        let seen := List.replicate kept mark ++ seen
        let rest := (c :: rest).drop quotes
        if closes then some (String.ofList seen.reverse, rest)
        else multiline? mark escapes n seen rest
    else if c = '\\' ∧ escapes = true then
      match lineBreak? rest with
      | some rest => multiline? mark escapes n seen rest
      | none =>
        match escape? rest with
        | some (e, rest) => multiline? mark escapes n (e :: seen) rest
        | none => none
    else
      match newline? (c :: rest) with
      | some rest => multiline? mark escapes n ('\n' :: seen) rest
      | none => if isPrintable c then multiline? mark escapes n (c :: seen) rest else none

/-- A text without the line end that it begins with. -/
def withoutFirstNewline (cs : List Char) : List Char := (newline? cs).getD cs

/-- Reads a string. -/
def string? : List Char → Option (String × List Char)
  | '"' :: '"' :: '"' :: rest => multiline? '"' true (rest.length + 1) [] (withoutFirstNewline rest)
  | '\'' :: '\'' :: '\'' :: rest =>
    multiline? '\'' false (rest.length + 1) [] (withoutFirstNewline rest)
  | '"' :: rest => basic? (rest.length + 1) [] rest
  | '\'' :: rest => literal? rest
  | _ => none

/-! ### Numbers -/

/-- Reads digits in groups, which single underscores part. -/
def groups (isDigit : Char → Bool) : List Char → List Char × List Char
  | [] => ([], [])
  | c :: rest =>
    if isDigit c then
      let (ds, rest) := groups isDigit rest
      (c :: ds, rest)
    else if c = '_' ∧ (rest.head?.any isDigit) = true then groups isDigit rest
    else ([], c :: rest)

/-- Reads one or more digits. -/
def digits? (isDigit : Char → Bool) (cs : List Char) : Option (List Char × List Char) :=
  if cs.head?.any isDigit then some (groups isDigit cs) else none

/-- The integers of 64 bits with a sign. -/
def integer? (n : Int) : Option Toml :=
  if -9223372036854775808 ≤ n ∧ n < 9223372036854775808 then some (.int n) else none

/-- Reads an integer in a base of two, eight or sixteen, behind what announces the base. -/
def based? (base : Nat) (cs : List Char) : Option (Toml × List Char) := do
  let (ds, rest) ← digits? (fun c => (Hex.digit? c).any (· < base)) cs
  let n := (ds.filterMap Hex.digit?).foldl (fun n d => base * n + d) 0
  let v ← integer? n
  some (v, rest)

/-- Reads a sign. -/
def sign? : List Char → Option Char × List Char
  | '+' :: rest => (some '+', rest)
  | '-' :: rest => (some '-', rest)
  | rest => (none, rest)

/-- Reads a decimal point with digits, if there is a point. -/
def fraction? : List Char → Option (Option (List Char) × List Char)
  | '.' :: cs => (digits? Char.isDigit cs).map fun (ds, rest) => (some ds, rest)
  | cs => some (none, cs)

/-- Reads an exponent, if there is one. -/
def exponent? : List Char → Option (Option Int × List Char)
  | [] => some (none, [])
  | c :: cs =>
    if c = 'e' ∨ c = 'E' then do
      let (sign, cs) := sign? cs
      let (ds, rest) ← digits? Char.isDigit cs
      let n := ds.foldl Decimal.pushDigit 0
      some (some (if sign = some '-' then -(n : Int) else n), rest)
    else some (none, c :: cs)

/-- Reads infinity or the value that is no number. -/
def special? : List Char → Option (List Char)
  | 'i' :: 'n' :: 'f' :: rest => some rest
  | 'n' :: 'a' :: 'n' :: rest => some rest
  | _ => none

/-- What was read of a text, given the rest. -/
def textBefore (cs rest : List Char) : String := String.ofList (cs.take (cs.length - rest.length))

/-- Reads a decimal number behind its sign; `cs` is the text with the sign. -/
def decimal? (cs : List Char) (sign : Option Char) (unsigned : List Char) :
    Option (Toml × List Char) := do
  let (whole, rest) ← digits? Char.isDigit unsigned
  if whole.head? = some '0' ∧ whole.length ≠ 1 then none
  else
    let (fraction, rest) ← fraction? rest
    let (exponent, rest) ← exponent? rest
    match fraction, exponent with
    | none, none =>
      let n := whole.foldl Decimal.pushDigit 0
      let v ← integer? (if sign = some '-' then -(n : Int) else n)
      some (v, rest)
    | _, _ =>
      let places := fraction.getD []
      let m := (whole ++ places).foldl Decimal.pushDigit 0
      if sign ≠ some '-' ∧ Double.exceeds m (exponent.getD 0 - places.length) = true then none
      else some (.float (textBefore cs rest), rest)

/-- Reads a number. -/
def number? (cs : List Char) : Option (Toml × List Char) :=
  match cs with
  | '0' :: 'x' :: rest => based? 16 rest
  | '0' :: 'o' :: rest => based? 8 rest
  | '0' :: 'b' :: rest => based? 2 rest
  | _ =>
    let (sign, unsigned) := sign? cs
    match special? unsigned with
    | some rest => some (.float (textBefore cs rest), rest)
    | none => decimal? cs sign unsigned

/-! ### Times -/

/-- Reads a number of so many digits. -/
def field? (width : Nat) (cs : List Char) : Option (Nat × List Char) :=
  let ds := cs.take width
  if ds.length = width ∧ ds.all Char.isDigit = true then
    some (ds.foldl Decimal.pushDigit 0, cs.drop width)
  else none

/-- Reads a number of two digits, up to a largest one, with a character before it. -/
def fieldAfter? (mark : Char) (largest : Nat) (cs : List Char) : Option (Nat × List Char) := do
  let (n, rest) ← field? 2 (← Text.dropPrefix? [mark] cs)
  if n ≤ largest then some (n, rest) else none

/-- Passes over a date. -/
def date? (cs : List Char) : Option (List Char) := do
  let (year, cs) ← field? 4 cs
  let (month, cs) ← fieldAfter? '-' 12 cs
  let (day, cs) ← fieldAfter? '-' 31 cs
  if Date.isValid ⟨year, month, day⟩ then some cs else none

/-- Passes over the fraction of a second, if there is one. -/
def secondFraction? : List Char → Option (List Char)
  | '.' :: cs => if cs.head?.any Char.isDigit then some (cs.dropWhile Char.isDigit) else none
  | cs => some cs

/-- Passes over a time of day. Second 60 is a leap second. -/
def clock? (cs : List Char) : Option (List Char) := do
  let (hour, cs) ← field? 2 cs
  let (_, cs) ← fieldAfter? ':' 59 cs
  let (_, cs) ← fieldAfter? ':' 60 cs
  if hour ≤ 23 then secondFraction? cs else none

/-- Passes over a time offset, if there is one. -/
def offset? (cs : List Char) : Option (List Char) :=
  match cs with
  | 'Z' :: rest => some rest
  | 'z' :: rest => some rest
  | _ =>
    match sign? cs with
    | (none, _) => some cs
    | (some _, unsigned) => do
      let (hour, rest) ← field? 2 unsigned
      let (_, rest) ← fieldAfter? ':' 59 rest
      if hour ≤ 23 then some rest else none

/-- Passes over the time of day after a date. -/
def clockAfterDate? : List Char → Option (List Char)
  | 'T' :: cs => clock? cs >>= offset?
  | 't' :: cs => clock? cs >>= offset?
  | ' ' :: cs => clock? cs >>= offset?
  | _ => none

/-- Passes over a time: a date, a time of day, or both. -/
def timeEnd? (cs : List Char) : Option (List Char) :=
  match date? cs with
  | some rest => some ((clockAfterDate? rest).getD rest)
  | none => clock? cs

/-- Reads a time or a number. -/
def timeOrNumber? (cs : List Char) : Option (Toml × List Char) :=
  match timeEnd? cs with
  | some rest => some (.time (textBefore cs rest), rest)
  | none => number? cs

end ReviewQuorum.Toml.Reader
