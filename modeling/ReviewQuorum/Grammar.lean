import ReviewQuorum.Request
import ReviewQuorum.Text.Blank
import ReviewQuorum.Text.Decimal

/-! # The grammar of commands

A line is a command if it is, blanks at its ends aside, the trigger alone or the trigger with a
blank after it. What follows is read as a number and a role:

* nothing asks for help;
* a first word that is no integer of 64 bits, or a third word, makes the arguments malformed;
* a second word that names no role is reported before the number is looked at;
* then a number above ten or below zero is out of range, and any other makes a request. -/

namespace ReviewQuorum

/-- The integers that fit into 64 bits with a sign. -/
def fitsInt64 (n : Int) : Bool := -9223372036854775808 ≤ n && n < 9223372036854775808

/-- The number that a word of a command writes. -/
def readCount? (word : List Char) : Option Int := (Decimal.toInt? word).filter fitsInt64

namespace Outcome

/-- The outcome of a number whose role is known. -/
def ofCount (n : Int) (role : Option Role) : Outcome :=
  if (maxReviewers : Int) < n then .outOfRange n .upper (role.getD .default)
  else if n < 0 then .outOfRange n .lower (role.getD .default)
  else .parsed ⟨n.toNat, role⟩

/-- The outcome of a number and of the word for a role, if there is one. -/
def ofCountAndToken (n : Int) : Option (List Char) → Outcome
  | none => ofCount n none
  | some token =>
    match Role.ofName? (String.ofList token) with
    | none => .unknownRole (String.ofList token)
    | some role => ofCount n (some role)

/-- The outcome of the words of a command; `whole` is the text they come from. -/
def ofWords (whole : List Char) : List (List Char) → Outcome
  | [] => .helpRequested
  | count :: rest =>
    match rest, readCount? count with
    | [], some n => ofCountAndToken n none
    | [token], some n => ofCountAndToken n (some token)
    | _, _ => .malformed (String.ofList (Text.trim whole))

/-- Reads what stands after the trigger. -/
def ofArguments (arguments : String) : Outcome :=
  ofWords arguments.toList (Text.words arguments.toList)

/-- Reads a line, given as its characters, if it is a command. -/
def ofChars? (line : List Char) : Option Outcome :=
  match Text.dropPrefix? trigger.toList (Text.trim line) with
  | none => none
  | some [] => some (ofWords [] [])
  | some (c :: rest) =>
    if Text.isBlank c then some (ofWords (c :: rest) (Text.words (c :: rest))) else none

/-- Reads a line, if it is a command. -/
def ofLine? (line : String) : Option Outcome := ofChars? line.toList

end Outcome

end ReviewQuorum
