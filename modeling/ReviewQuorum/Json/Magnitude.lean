import ReviewQuorum.Text.Decimal
import ReviewQuorum.Text.Double

/-! # The magnitude of JSON numbers

The digits of a JSON number are gathered in a word of 64 bits for as long as it can take the next
one; what is left over of the whole part counts in the power of ten, and what is left over of the
places is dropped. The number is the double nearest to the word times the double nearest to the
power of ten, so it is too large if the product is infinite or the power itself is none. -/

namespace ReviewQuorum.Json

/-- A word of digits and the power of ten that it is taken with. -/
structure Magnitude where
  word : Nat
  power : Int
deriving DecidableEq

namespace Magnitude

/-- Pushes digits into a word as long as it stays below `2 ^ 64`, and gives the digits left over. -/
def gather (word : Nat) : List Char → Nat × List Char
  | [] => (word, [])
  | c :: cs =>
    let next := Decimal.pushDigit word c
    if next < UInt64.size then gather next cs else (word, c :: cs)

/-- The magnitude of the digits before and behind the decimal point, with the power of ten that the
exponent writes. -/
def ofDigits (whole places : List Char) (power : Int) : Magnitude :=
  let (word, left) := gather 0 whole
  let (word, rest) := gather word places
  ⟨word, power + left.length - (places.length - rest.length)⟩

/-- The greatest power of ten that a double can be near to. -/
def maxPower : Int := 308

/-- Whether a number of this magnitude is out of the range of doubles. -/
def isTooLarge (m : Magnitude) : Bool :=
  if m.word = 0 ∨ m.power < 0 then false
  else maxPower < m.power || Double.productExceeds m.word (Nat.pow 10 m.power.toNat)

end Magnitude

end ReviewQuorum.Json
