/-! # Hexadecimal digits

Hexadecimal numbers are read from digits of either case. -/

namespace ReviewQuorum.Hex

/-- The value of a hexadecimal digit. -/
def digit? (c : Char) : Option Nat :=
  if '0' ≤ c ∧ c ≤ '9' then some (c.toNat - '0'.toNat)
  else if 'a' ≤ c ∧ c ≤ 'f' then some (c.toNat - 'a'.toNat + 10)
  else if 'A' ≤ c ∧ c ≤ 'F' then some (c.toNat - 'A'.toNat + 10)
  else none

/-- The number that digits write, after a number that has been read. -/
def number? (seen : Nat) : List Char → Option Nat
  | [] => some seen
  | c :: cs => do
    let d ← digit? c
    number? (16 * seen + d) cs

end ReviewQuorum.Hex
