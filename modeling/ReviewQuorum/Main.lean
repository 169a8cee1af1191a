import ReviewQuorum.CommandLine.Arguments

/-! # The program

The program takes a job from its arguments, reads the files of the job, carries it out, waits for as
long as the job takes, saves what the job saves and prints. -/

namespace ReviewQuorum.Main

/-- What is found at a path. -/
def contentAt (path : String) : IO FileContent := do
  try
    pure (.text (← IO.FS.readFile path))
  catch e =>
    match e with
    | .noFileOrDirectory .. => pure .missing
    | _ => pure .unreadable

/-- What is found at each of some paths. -/
def contentsAt (paths : List String) : IO (List (String × FileContent)) :=
  paths.mapM fun path => do pure (path, ← contentAt path)

/-- Looks a path up among those that have been read. -/
def lookUp (contents : List (String × FileContent)) (path : String) : FileContent :=
  ((contents.find? fun c => c.1 == path).map (·.2)).getD .missing

/-- Sleeps for ever. -/
partial def sleepOn : IO Unit := do
  IO.sleep 60000
  sleepOn

/-- Waits as long as a job takes. -/
def wait : Option Nat → IO Unit
  | some ms => do
    for _ in [0:ms / 1000] do
      IO.sleep 1000
    IO.sleep (UInt32.ofNat (ms % 1000))
  | none => sleepOn

/-- Delivers the result of a job. -/
def deliver (job : Job) (r : JobResult) : IO UInt32 := do
  IO.eprint (CommandLine.linesText r.progress)
  wait r.duration
  match job.snapshotPath?, r.saved with
  | some path, some text => IO.FS.writeFile path text
  | _, _ => pure ()
  IO.print (CommandLine.linesText r.output)
  pure (UInt32.ofNat r.exitCode)

/-- Carries a job out. -/
def run (job : Job) : IO UInt32 := do
  let contents ← contentsAt job.paths
  match job.run (lookUp contents) with
  | .ok r => deliver job r
  | .error e =>
    IO.eprintln ("error: " ++ e.message)
    pure (UInt32.ofNat e.exitCode)

end ReviewQuorum.Main

/-- Runs the program with its arguments. -/
def main (args : List String) : IO UInt32 := do
  match ReviewQuorum.Job.ofArguments args with
  | .ok job => ReviewQuorum.Main.run job
  | .error e =>
    IO.eprintln ("error: " ++ e.message)
    pure 2
