/-! # The range of doubles

Numbers with a fraction or an exponent are kept as they are written, but one that is out of the
range of doubles is refused. A number is out of range if its nearest double is infinite, and so is a
product of two doubles. -/

namespace ReviewQuorum.Double

/-- The least number whose nearest double is infinite: half a unit of the last place above the
largest double. -/
def limit : Nat := Nat.pow 2 1024 - Nat.pow 2 970

/-- Whether `m * 10 ^ e` reaches the limit. Numbers with far more or far fewer than 309 digits
before the point are told by their length. -/
def exceeds (m : Nat) (e : Int) : Bool :=
  let magnitude := (Nat.toDigits 10 m).length + e
  if m = 0 ∨ magnitude < 300 then false
  else if 400 < magnitude then true
  else if 0 ≤ e then limit ≤ m * Nat.pow 10 e.toNat
  else limit * Nat.pow 10 (-e).toNat ≤ m

/-- The double nearest to a number below the limit; of two that are as near, the one whose last
place is even. -/
def nearest (n : Nat) : Nat :=
  let unit := Nat.pow 2 (n.log2 - 52)
  let q := n / unit
  let r := n % unit
  if unit < 2 * r ∨ unit = 2 * r ∧ q % 2 = 1 then (q + 1) * unit else q * unit

/-- Whether the product of the doubles nearest to two numbers is out of range. -/
def productExceeds (m n : Nat) : Bool := limit ≤ nearest m * nearest n

end ReviewQuorum.Double
