import ReviewQuorum.CommandLine

/-! # Arguments

The arguments of the program name a job. What begins with `-` is an option, but for a lone `-`.
Options stand before or after words; an option with a value is written as two arguments, of which
the second is no option, or as one with `=` in it, and no option stands twice. All that follows `--`
is words. -/

namespace ReviewQuorum

/-- Why arguments name no job. -/
inductive UsageError
  | noCommand
  | unknownCommand (word : String)
  | unknownOption (option : String)
  | repeatedOption (option : String)
  | valueMissing (option : String)
  | valueRefused (option value : String)
  | required (what : String)
  | unexpected (word : String)
deriving DecidableEq

/-- What an error says. -/
def UsageError.message : UsageError → String
  | noCommand => "a command is required: parse, evaluate, gate or watch"
  | unknownCommand word => "unknown command " ++ word
  | unknownOption option => "unknown option " ++ option
  | repeatedOption option => option ++ " stands more than once"
  | valueMissing option => option ++ " needs a value"
  | valueRefused option value => value ++ " is no value of " ++ option
  | required what => what ++ " is required"
  | unexpected word => "unexpected argument " ++ word

/-- Arguments that have been sorted: options with their values, options without, and words. -/
structure Arguments where
  values : List (String × String) := []
  flags : List String := []
  words : List String := []
deriving DecidableEq

/-- The options that a command knows, those with a value and those without. -/
structure OptionNames where
  valued : List String := []
  flags : List String := []

namespace Arguments

/-- Whether an option has been given. -/
def has (a : Arguments) (name : String) : Bool :=
  a.flags.contains name || a.values.any fun v => v.1 == name

/-- The value of an option. -/
def value? (a : Arguments) (name : String) : Option String :=
  (a.values.find? fun v => v.1 == name).map (·.2)

/-- Cuts an argument at the first `=`. -/
def split (argument : String) : String × Option String :=
  let cs := argument.toList
  let name := cs.takeWhile (· != '=')
  match cs.drop name.length with
  | [] => (argument, none)
  | _ :: value => (String.ofList name, some (String.ofList value))

/-- Adds an option with a value. -/
def addValue (a : Arguments) (name value : String) : Arguments :=
  { a with values := a.values ++ [(name, value)] }

/-- Adds an option without a value. -/
def addFlag (a : Arguments) (name : String) : Arguments := { a with flags := a.flags ++ [name] }

/-- Adds a word. -/
def addWord (a : Arguments) (word : String) : Arguments := { a with words := a.words ++ [word] }

/-- Adds an option, as far as it is complete; of one whose value is still to come the name is
returned. -/
def addOption (known : OptionNames) (a : Arguments) (argument : String) :
    Except UsageError (Arguments × Option String) :=
  let (name, value) := split argument
  if a.has name then .error (.repeatedOption name)
  else if known.valued.contains name then
    match value with
    | some v => .ok (a.addValue name v, none)
    | none => .ok (a, some name)
  else if known.flags.contains name && value.isNone then .ok (a.addFlag name, none)
  else .error (.unknownOption argument)

/-- Whether an argument begins like an option. -/
def isOption (argument : String) : Bool := argument.startsWith "-" && argument != "-"

/-- Sorts arguments, on top of those that have been sorted; `waiting` is the option that waits for
its value. -/
def sort (known : OptionNames) (a : Arguments) (waiting : Option String) :
    List String → Except UsageError Arguments
  | [] =>
    match waiting with
    | none => .ok a
    | some name => .error (.valueMissing name)
  | argument :: rest =>
    match waiting with
    | some name =>
      if isOption argument then .error (.valueMissing name)
      else sort known (a.addValue name argument) none rest
    | none =>
      if argument = "--" then .ok (rest.foldl addWord a)
      else if !isOption argument then sort known (a.addWord argument) none rest
      else
        match addOption known a argument with
        | .ok (a, waiting) => sort known a waiting rest
        | .error e => .error e

/-- The only word. -/
def onlyWord (a : Arguments) (what : String) : Except UsageError String :=
  match a.words with
  | [] => .error (.required what)
  | [word] => .ok word
  | _ :: word :: _ => .error (.unexpected word)

/-- Refuses words. -/
def noWords (a : Arguments) : Except UsageError Unit :=
  match a.words with
  | [] => .ok ()
  | word :: _ => .error (.unexpected word)

/-- The value of an option that is a number of 64 bits. -/
def number? (a : Arguments) (name : String) : Except UsageError (Option Nat) :=
  match a.value? name with
  | none => .ok none
  | some text =>
    match (Decimal.toNat? text.toList).filter (· < UInt64.size) with
    | some n => .ok (some n)
    | none => .error (.valueRefused name text)

/-- The value of `--action`. -/
def action (a : Arguments) : Except UsageError GateAction :=
  match a.value? "--action" with
  | none => .error (.required "--action")
  | some text =>
    match GateAction.ofName? text with
    | some action => .ok action
    | none => .error (.valueRefused "--action" text)

/-- The files that the options name. -/
def files (a : Arguments) : Except UsageError JobFiles :=
  match a.value? "--snapshot" with
  | none => .error (.required "--snapshot")
  | some path =>
    let d : JobFiles := { snapshot := path }
    .ok { d with
      census := a.value? "--census"
      config := (a.value? "--config").getD d.config }

end Arguments

/-- The options that name files. -/
def OptionNames.files : List String := ["--snapshot", "--census", "--config"]

/-- The job that arguments name. -/
def Job.ofArguments : List String → Except UsageError Job
  | [] => .error .noCommand
  | "parse" :: rest => do
    let a ← Arguments.sort { flags := ["--json"] } {} none rest
    pure (.parse (← a.onlyWord "a line") (a.has "--json"))
  | "evaluate" :: rest => do
    let a ← Arguments.sort
      { valued := OptionNames.files, flags := ["--write", "--json"] } {} none rest
    a.noWords
    pure (.evaluate (← a.files) (a.has "--write") (a.has "--json"))
  | "gate" :: rest => do
    let a ← Arguments.sort
      { valued := "--action" :: OptionNames.files, flags := ["--write", "--json"] } {} none rest
    a.noWords
    pure (.gate (← a.files) (← a.action) (a.has "--write") (a.has "--json"))
  | "watch" :: rest => do
    let a ← Arguments.sort
      { valued := ["--passes", "--interval-secs"] ++ OptionNames.files, flags := ["--write"] }
      {} none rest
    a.noWords
    pure (.watch (← a.files) (← a.number? "--passes") (← a.number? "--interval-secs")
      (a.has "--write"))
  | command :: _ => .error (.unknownCommand command)

/-- The files that a job reads. -/
def Job.paths : Job → List String
  | parse _ _ => []
  | evaluate files _ _ => files.config :: files.census.toList ++ [files.snapshot]
  | gate files _ _ _ => files.config :: files.census.toList ++ [files.snapshot]
  | watch files _ _ _ => files.config :: files.census.toList ++ [files.snapshot]

/-- The file of the snapshot. -/
def Job.snapshotPath? : Job → Option String
  | parse _ _ => none
  | evaluate files _ _ => some files.snapshot
  | gate files _ _ _ => some files.snapshot
  | watch files _ _ _ => some files.snapshot

end ReviewQuorum
