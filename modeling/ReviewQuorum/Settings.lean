import ReviewQuorum.Retry
import ReviewQuorum.Role
import ReviewQuorum.Text.Blank
import ReviewQuorum.Text.Decimal

/-! # Settings

The settings of a reconciler: the account it posts as, the label that shows readiness, the interval
between polls and how calls are retried. Every setting has a default. `Settings.check` names the
first thing that is wrong with them. -/

namespace ReviewQuorum

/-- How a reconciler works. -/
structure Settings where
  botAccount : Account := "revgate-bot"
  readyLabel : String := "ready"
  pollIntervalSecs : Nat := 60
  retry : Retry := {}
deriving DecidableEq, Inhabited

/-- What is wrong with settings. -/
inductive SettingsError
  | blankReadyLabel
  | zeroPollInterval
  | backoffExceedsMax (initial max : Nat)
deriving DecidableEq

/-- What an error says. -/
def SettingsError.message : SettingsError → String
  | blankReadyLabel => "invalid config: ready_label must not be empty"
  | zeroPollInterval => "invalid config: poll_interval_secs must be at least 1"
  | backoffExceedsMax initial max =>
    "invalid config: retry.initial_backoff_ms (" ++ Decimal.ofNat initial ++
      ") exceeds retry.max_backoff_ms (" ++ Decimal.ofNat max ++ ")"

namespace Settings

/-- The interval between polls in milliseconds. -/
def pollIntervalMs (s : Settings) : Nat := s.pollIntervalSecs * 1000

/-- The first thing that is wrong with settings. -/
def check (s : Settings) : Option SettingsError :=
  if (Text.trim s.readyLabel.toList).isEmpty then some .blankReadyLabel
  else if s.pollIntervalSecs = 0 then some .zeroPollInterval
  else if s.retry.maxBackoff < s.retry.initialBackoff then
    some (.backoffExceedsMax s.retry.initialBackoff s.retry.maxBackoff)
  else none

end Settings

end ReviewQuorum
