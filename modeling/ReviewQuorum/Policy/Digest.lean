import ReviewQuorum.Policy
import ReviewQuorum.Sha256
import ReviewQuorum.Text.Decimal

/-! # The digest of a policy

A policy is identified by the hash of a text that lists what it holds: the total, then the minimum
of each role that has one, lowest role first, each on a line of its own. -/

namespace ReviewQuorum.Policy

/-- The line of the digest's text that belongs to the minimum of a role. -/
def minimumLine (e : Role × Nat) : String := e.1.name ++ ":" ++ Decimal.ofNat e.2 ++ "\n"

/-- The text whose hash identifies the policy. -/
def digestText (p : Policy) : String :=
  "total:" ++ Decimal.ofNat p.total ++ "\n" ++ String.join (p.minimums.toList.map minimumLine)

/-- The identifier of a policy's content. -/
def digest (p : Policy) : String := "pol1_" ++ Sha256.hexOfString p.digestText

end ReviewQuorum.Policy
