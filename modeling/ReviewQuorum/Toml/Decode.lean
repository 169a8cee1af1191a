import ReviewQuorum.Settings
import ReviewQuorum.Toml

/-! # Settings and roles in TOML

Settings are the entries of a document's table, and those about retries stand in a table of their
own or, without their names, in an array. A census is the table `members`, from accounts to roles. A
role is its name, or a table with the name as its only key and nothing under it. Entries with other
keys are passed over; one that is missing has its default. -/

namespace ReviewQuorum

namespace Toml

/-- A string. -/
def string? : Toml → Option String
  | .str s => some s
  | _ => none

/-- A natural number of at most so many bits. -/
def nat? (bits : Nat) : Toml → Option Nat
  | .int n => if 0 ≤ n ∧ n < Nat.pow 2 bits then some n.toNat else none
  | _ => none

/-- Whether a value is an array or a table that holds nothing. -/
def isEmpty : Toml → Bool
  | .arr items => items.isEmpty
  | .table _ entries => entries.isEmpty
  | .tables items => items.isEmpty
  | _ => false

/-- A role. -/
def role? : Toml → Option Role
  | .str s => Role.ofName? s
  | .table _ [(s, v)] => if v.isEmpty then Role.ofName? s else none
  | _ => none

/-- A value that may be missing. -/
def orDefault {α : Type} (default : α) (decode? : Toml → Option α) : Option Toml → Option α
  | none => some default
  | some v => decode? v

/-- The settings about retries, from the values that there are. -/
def retryOf? (maxAttempts initialBackoff maxBackoff : Option Toml) : Option Retry := do
  let d : Retry := {}
  let maxAttempts ← orDefault d.maxAttempts (nat? 32) maxAttempts
  let initialBackoff ← orDefault d.initialBackoff (nat? 64) initialBackoff
  let maxBackoff ← orDefault d.maxBackoff (nat? 64) maxBackoff
  some ⟨maxAttempts, initialBackoff, maxBackoff⟩

/-- The settings about retries. A time holds none of them. -/
def retry? : Toml → Option Retry
  | .table origin entries =>
    let t : TomlTable := ⟨origin, entries⟩
    retryOf? (t.get? "max_attempts") (t.get? "initial_backoff_ms") (t.get? "max_backoff_ms")
  | .arr items => retryOf? items[0]? items[1]? items[2]?
  | .time _ => some {}
  | _ => none

/-- The members of a census. -/
def members? : Toml → Option RoleTable
  | .table _ entries =>
    (entries.mapM fun e => (role? e.2).map fun r => (e.1, r)).map fun es => ⟨Dict.ofList es⟩
  | _ => none

end Toml

namespace TomlTable

/-- The settings that a table holds. -/
def settings? (t : TomlTable) : Option Settings := do
  let d : Settings := {}
  let botAccount ← Toml.orDefault d.botAccount Toml.string? (t.get? "bot_account")
  let readyLabel ← Toml.orDefault d.readyLabel Toml.string? (t.get? "ready_label")
  let pollIntervalSecs ←
    Toml.orDefault d.pollIntervalSecs (Toml.nat? 64) (t.get? "poll_interval_secs")
  let retry ← Toml.orDefault d.retry Toml.retry? (t.get? "retry")
  some ⟨botAccount, readyLabel, pollIntervalSecs, retry⟩

/-- The census that a table holds. -/
def census? (t : TomlTable) : Option RoleTable :=
  Toml.orDefault RoleTable.empty Toml.members? (t.get? "members")

end TomlTable

end ReviewQuorum
