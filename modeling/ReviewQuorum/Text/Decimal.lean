/-! # Decimal integers

Natural numbers are written with the fewest decimal digits. An integer is read from an optional
sign, `+` or `-`, and one or more ASCII digits; leading zeros are allowed. -/

namespace ReviewQuorum.Decimal

/-- The decimal digits of a natural number. -/
def ofNat (n : Nat) : String := String.ofList (Nat.toDigits 10 n)

/-- The decimal digits of an integer, after `-` if it is negative. -/
def ofInt : Int → String
  | .ofNat n => ofNat n
  | .negSucc n => "-" ++ ofNat (n + 1)

/-- The value of an ASCII digit. -/
def digit? (c : Char) : Option Nat := if c.isDigit then some (c.toNat - '0'.toNat) else none

/-- One step of reading a number from the left. -/
def pushDigit (n : Nat) (c : Char) : Nat := 10 * n + (c.toNat - '0'.toNat)

/-- The number that one or more ASCII digits write. -/
def toNat? (cs : List Char) : Option Nat :=
  if !cs.isEmpty && cs.all Char.isDigit then some (cs.foldl pushDigit 0) else none

/-- The integer that a text writes: a sign or none, then one or more ASCII digits. -/
def toInt? : List Char → Option Int
  | '+' :: cs => (toNat? cs).map Int.ofNat
  | '-' :: cs => (toNat? cs).map fun n => -Int.ofNat n
  | cs => (toNat? cs).map Int.ofNat

/-- The digits of `n`, after as many zeros as make the text `width` long. -/
def padded (width n : Nat) : List Char :=
  let ds := Nat.toDigits 10 n
  List.replicate (width - ds.length) '0' ++ ds

end ReviewQuorum.Decimal
