import ReviewQuorum.Settings
import ReviewQuorum.Wire

/-! # The wire form of settings

Every member has a default, so that an empty object holds the settings that nobody has changed. -/

namespace ReviewQuorum

instance : Wire Retry where
  encode p := .obj
    [("max_attempts", Wire.ofNat p.maxAttempts),
      ("initial_backoff_ms", Wire.ofNat p.initialBackoff),
      ("max_backoff_ms", Wire.ofNat p.maxBackoff)]
  decode? := Wire.Record.run? do
    let d : Retry := {}
    let maxAttempts ← Wire.Record.withDefault "max_attempts" d.maxAttempts (Wire.nat? 32)
    let initialBackoff ←
      Wire.Record.withDefault "initial_backoff_ms" d.initialBackoff (Wire.nat? 64)
    let maxBackoff ← Wire.Record.withDefault "max_backoff_ms" d.maxBackoff (Wire.nat? 64)
    pure ⟨maxAttempts, initialBackoff, maxBackoff⟩

instance : Wire Settings where
  encode s := .obj
    [("bot_account", .str s.botAccount), ("ready_label", .str s.readyLabel),
      ("poll_interval_secs", Wire.ofNat s.pollIntervalSecs), ("retry", Wire.encode s.retry)]
  decode? := Wire.Record.run? do
    let d : Settings := {}
    let botAccount ← Wire.Record.withDefault "bot_account" d.botAccount Wire.string?
    let readyLabel ← Wire.Record.withDefault "ready_label" d.readyLabel Wire.string?
    let pollIntervalSecs ←
      Wire.Record.withDefault "poll_interval_secs" d.pollIntervalSecs (Wire.nat? 64)
    let retry ← Wire.Record.withDefault "retry" d.retry Wire.decode?
    pure ⟨botAccount, readyLabel, pollIntervalSecs, retry⟩

end ReviewQuorum
