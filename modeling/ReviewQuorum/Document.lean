import ReviewQuorum.Toml.Decode
import ReviewQuorum.Toml.Reader
import ReviewQuorum.Json.Printer
import ReviewQuorum.Json.Reader
import ReviewQuorum.Wire.Snapshot

/-! # Documents

The files that a run works on. The configuration and the census are TOML, a snapshot is JSON. A
configuration that is not there stands for the default settings; other files have to be there. -/

namespace ReviewQuorum

/-- What a file is for. -/
inductive DocumentKind
  | config
  | census
  | snapshot
deriving DecidableEq

/-- The name of a kind of file. -/
def DocumentKind.name : DocumentKind → String
  | config => "config"
  | census => "census"
  | snapshot => "snapshot"

/-- What is found at a path. -/
inductive FileContent
  | missing
  | unreadable
  | text (s : String)
deriving DecidableEq

/-- Why a file is of no use. -/
inductive DocumentError
  | unreadable (kind : DocumentKind) (path : String)
  | malformed (kind : DocumentKind) (path : String)
  | invalidSettings (error : SettingsError)
deriving DecidableEq

/-- What an error says. -/
def DocumentError.message : DocumentError → String
  | unreadable kind path => "failed to read " ++ kind.name ++ " " ++ path
  | malformed kind path => "failed to parse " ++ kind.name ++ " " ++ path
  | invalidSettings error => error.message

namespace Document

/-- The settings that a configuration holds, if they pass the check. -/
def settings (path text : String) : Except DocumentError Settings :=
  match TomlTable.ofText? text >>= TomlTable.settings? with
  | none => .error (.malformed .config path)
  | some s =>
    match s.check with
    | some e => .error (.invalidSettings e)
    | none => .ok s

/-- The roles that a census gives. -/
def census (path text : String) : Except DocumentError RoleTable :=
  match TomlTable.ofText? text >>= TomlTable.census? with
  | none => .error (.malformed .census path)
  | some t => .ok t

/-- The snapshot that a file holds. -/
def snapshot (path text : String) : Except DocumentError Snapshot :=
  match Json.ofText? text >>= Wire.decode? with
  | none => .error (.malformed .snapshot path)
  | some s => .ok s

/-- The text of a snapshot's file. -/
def ofSnapshot (s : Snapshot) : String := (Wire.encode s).pretty ++ "\n"

/-- Reads the settings from what is found at a path. -/
def readSettings (path : String) : FileContent → Except DocumentError Settings
  | .missing => .ok {}
  | .unreadable => .error (.unreadable .config path)
  | .text s => settings path s

/-- Reads a census from what is found at a path. -/
def readCensus (path : String) : FileContent → Except DocumentError RoleTable
  | .text s => census path s
  | _ => .error (.unreadable .census path)

/-- Reads a snapshot from what is found at a path. -/
def readSnapshot (path : String) : FileContent → Except DocumentError Snapshot
  | .text s => snapshot path s
  | _ => .error (.unreadable .snapshot path)

end Document

end ReviewQuorum
