import ReviewQuorum.Document
import ReviewQuorum.Wire.Report
import ReviewQuorum.Worker

/-! # The command line

A `Job` is what the command line asks for. `Job.run` carries it out on the files that a path leads
to and gives what is printed, the exit code and, if the job writes, the new text of the snapshot's
file. A job on a snapshot opens a session first: it reads the configuration, then the census, then
the snapshot, and the first that fails ends the run. -/

namespace ReviewQuorum

/-- The files that a job works on. -/
structure JobFiles where
  snapshot : String
  census : Option String := none
  config : String := "revgate.toml"
deriving DecidableEq

/-- What the command line asks for. -/
inductive Job
  | parse (line : String) (json : Bool)
  | evaluate (files : JobFiles) (write json : Bool)
  | gate (files : JobFiles) (action : GateAction) (write json : Bool)
  | watch (files : JobFiles) (passes intervalSecs : Option Nat) (write : Bool)
deriving DecidableEq

/-- Why a job ends without a result. -/
inductive JobError
  | document (error : DocumentError)
  | zeroInterval
  | passFailed (id : String) (failure : Failure)
  | passSuperseded (id : String)
  | gateFailed (id : String) (error : ReconcilerError)
  | aborted
deriving DecidableEq

namespace JobError

/-- The error of a job whose pass has failed. A pass that aborts takes the job with it. -/
def ofPass (id : String) : Failure → JobError
  | .aborted => aborted
  | failure => passFailed id failure

/-- The error of a job whose question to the gate has failed. -/
def ofGate (id : String) : ReconcilerError → JobError
  | .call .aborted => aborted
  | error => gateFailed id error

/-- What an error says. -/
def message : JobError → String
  | document error => error.message
  | zeroInterval => "--interval-secs must be at least 1"
  | passFailed id failure => "pass failed for change request " ++ id ++ ": " ++ failure.message
  | passSuperseded id => "pass for change request " ++ id ++ " was superseded"
  | gateFailed id error => "gate check failed for change request " ++ id ++ ": " ++ error.message
  | aborted => Failure.aborted.message

/-- The exit code of a job that ends with an error. -/
def exitCode : JobError → Nat
  | aborted => 101
  | _ => 1

end JobError

/-- What a job gives: the lines for the user, those about its progress, the exit code, the new text
of the snapshot's file, and the milliseconds that it takes, if it ends. -/
structure JobResult where
  output : List String
  progress : List String := []
  exitCode : Nat := 0
  saved : Option String := none
  duration : Option Nat := some 0
deriving DecidableEq

namespace CommandLine

/-- Lines as text. -/
def linesText (lines : List String) : String := String.join (lines.map (· ++ "\n"))

/-- The word for a truth value. -/
def yesNo (b : Bool) : String := if b then "yes" else "no"

/-! ### Reading one line -/

/-- The kind of an outcome. -/
def kindOf : Outcome → String
  | .helpRequested => "help"
  | .malformed _ => "malformed"
  | .outOfRange _ bound _ => "out of range (limit " ++ Decimal.ofNat bound.limit ++ ")"
  | .unknownRole token => "unknown role `" ++ token ++ "`"
  | .parsed ⟨count, none⟩ => "parsed: " ++ Decimal.ofNat count
  | .parsed ⟨count, some role⟩ => "parsed: " ++ Decimal.ofNat count ++ " of role " ++ role.name

/-- The message for an outcome; a request is taken as the first one. -/
def messageOf : Outcome → String
  | .parsed request => Reply.success (Policy.default.apply request)
  | outcome => Reply.message outcome none

/-- Reads one line. -/
def parse (line : String) (json : Bool) : JobResult :=
  let outcome := Outcome.ofLine? line
  if json then
    { output := [(Json.obj
        [("is_command", .bool outcome.isSome), ("line", .str line),
          ("message", Wire.ofOption .str (outcome.map messageOf)),
          ("outcome", Wire.ofOption Wire.encode outcome)]).sorted.pretty] }
  else
    { output := "revgate parse" ::
        match outcome with
        | none => ["  Not a /reviewers command"]
        | some o => ["  Outcome: " ++ kindOf o, "  Message: " ++ messageOf o] }

/-! ### Sessions -/

/-- A snapshot in a forge of its own, ready for passes. -/
structure Session where
  id : String
  path : String
  reconciler : Reconciler
  world : World

namespace Session

/-- Reads the files of a job. The change request of the snapshot is tracked. -/
def start (look : String → FileContent) (files : JobFiles) : Except DocumentError Session := do
  let settings ← Document.readSettings files.config (look files.config)
  let census ←
    match files.census with
    | none => pure RoleTable.empty
    | some path => Document.readCensus path (look path)
  let snapshot ← Document.readSnapshot files.snapshot (look files.snapshot)
  let world := World.start ((Forge.empty settings.botAccount).insert snapshot) census
  pure ⟨snapshot.change.id, files.snapshot, .ofSettings settings,
    { world with memory := world.memory.track snapshot.change.id }⟩

/-- The text of the snapshot's file after a job that writes. -/
def saved (s : Session) (write : Bool) (w : World) : Option String :=
  if write then (w.forge.snapshot? s.id).map Document.ofSnapshot else none

/-- Whether the change request carries the ready label. -/
def isReady (s : Session) (w : World) : Bool :=
  (w.forge.snapshot? s.id).any fun snapshot =>
    snapshot.change.hasLabel s.reconciler.settings.readyLabel

end Session

/-! ### Jobs on a session -/

/-- The line about the minimum of a role. -/
def minimumLine (e : Role × Nat) : String :=
  "    of role " ++ e.1.name ++ ": " ++ Decimal.ofNat e.2

/-- What is said of the ready label. -/
def labelWord : Option Bool → String
  | some true => "set"
  | some false => "cleared"
  | none => "unchanged"

/-- The lines about a report. -/
def reportLines (r : Report) : List String :=
  ["  Required approvals: " ++ Decimal.ofNat r.policy.total] ++
    r.policy.minimums.toList.reverse.map minimumLine ++
    ["  Policy digest: " ++ r.readiness.explanation.policyDigest,
      "  Approvals: " ++ Decimal.ofNat r.tally.total, "  Ready: " ++ yesNo r.readiness.ready,
      "  Replies posted: " ++ Decimal.ofNat r.replies.length] ++
    r.replies.map ("    - " ++ ·) ++ ["  Ready label: " ++ labelWord r.labelChange]

/-- Runs one pass. -/
def evaluate (s : Session) (write json : Bool) : Except JobError JobResult :=
  match s.reconciler.runPass s.id s.world with
  | (.error f, _) => .error (.ofPass s.id f)
  | (.ok (.superseded _), _) => .error (.passSuperseded s.id)
  | (.ok (.completed report), w) =>
    .ok
      { output :=
          if json then [report.toJson.pretty]
          else
            ["revgate evaluate " ++ s.id, "  Source: " ++ s.path] ++ reportLines report ++
              if write then ["  Snapshot updated"] else []
        saved := s.saved write w }

/-- The lines about an answer of the gate. -/
def answerLines : GateAnswer → List String
  | .allowed => ["  Allowed"]
  | .blocked _ message => ["  Blocked", "", message]

/-- Asks the gate. A gate that stays closed makes the exit code one. -/
def gate (s : Session) (action : GateAction) (write json : Bool) : Except JobError JobResult :=
  match s.reconciler.checkGate s.id action s.world with
  | (.error e, _) => .error (.ofGate s.id e)
  | (.ok response, w) =>
    .ok
      { output :=
          if json then [response.toJson.pretty]
          else ("revgate gate " ++ s.id ++ " --action " ++ action.name) :: answerLines response
        exitCode := if response.isAllowed then 0 else 1
        saved := s.saved write w }

/-- The lines about a worker that has ended. -/
def totalsLines (t : WorkerTotals) : List String :=
  ["  Ticks: " ++ Decimal.ofNat t.ticks, "  Passes completed: " ++ Decimal.ofNat t.passes.completed,
    "  Passes superseded: " ++ Decimal.ofNat t.passes.superseded,
    "  Passes failed: " ++ Decimal.ofNat t.passes.failed]

/-- The seconds between polls: those that are asked for, or those of the settings. -/
def interval (s : Session) : Option Nat → Except JobError Nat
  | some 0 => .error .zeroInterval
  | some secs => .ok secs
  | none => .ok s.reconciler.settings.pollIntervalSecs

/-- Polls. Without a number of passes the job does not end. -/
def watch (s : Session) (passes intervalSecs : Option Nat) (write : Bool) :
    Except JobError JobResult := do
  let secs ← interval s intervalSecs
  let (totals, after) := Watch.run s.reconciler passes (Watch.start s.world (secs * 1000) 0 none)
  let w := after.world
  pure
    { output := ["revgate watch " ++ s.id] ++ totalsLines totals ++
        ["  Ready: " ++ yesNo (s.isReady w)]
      progress := ["revgate watch " ++ s.id, "  source: " ++ s.path,
        "  interval: " ++ Decimal.ofNat secs ++ "s"]
      saved := s.saved write w
      duration := passes.map fun _ => w.clock }

/-- Carries a job out on a session. -/
def withSession (look : String → FileContent) (files : JobFiles)
    (go : Session → Except JobError JobResult) : Except JobError JobResult :=
  match Session.start look files with
  | .error e => .error (.document e)
  | .ok s => go s

end CommandLine

open CommandLine in
/-- Carries a job out; `look` says what is found at a path. -/
def Job.run (look : String → FileContent) : Job → Except JobError JobResult
  | parse line json => .ok (CommandLine.parse line json)
  | evaluate files write json => withSession look files fun s => CommandLine.evaluate s write json
  | gate files action write json =>
    withSession look files fun s => CommandLine.gate s action write json
  | watch files passes intervalSecs write =>
    withSession look files fun s => CommandLine.watch s passes intervalSecs write

end ReviewQuorum
