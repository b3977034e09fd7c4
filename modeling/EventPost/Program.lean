import EventPost.CommandLine.Completions
import EventPost.CommandLine.Run
import EventPost.Journal.Filter
import EventPost.Settings.Loading

/-!
A whole run of the program, from what it starts with to what it leaves behind: a status, what it
wrote, the records in its log, and the requests that reached the service. The log is opened before
the settings are read; until they are, the records of the default level pass, and from then on
those of the level that the settings name. A variable of the environment may set the filter for
the whole run.
-/

namespace EventPost

open CommandLine (Arguments ArgumentFault Outcome)

/-- Colours are forced or forbidden by variables, and are otherwise for terminals. -/
def Environment.coloured (env : Environment) (terminal : Bool) : Bool :=
  if (env.get? "CLICOLOR_FORCE").any (· ≠ "0") then true
  else if (env.get? "NO_COLOR").isSome then false
  else terminal && (env.get? "CLICOLOR").all (· ≠ "0")

/-- The directory of a user's data, or without a home the one that the program runs in. -/
def Environment.dataDirectory (env : Environment) : String :=
  (env.directory? "XDG_DATA_HOME" ".local/share").getD "."

namespace Program

structure Start where
  argv : List String
  environment : Environment
  files : Files
  /-- Whether people read what is written. -/
  terminal : Bool
  now : Int64
  counters : Counters
  service : Http.Service

structure Finish where
  status : Nat
  stdout : String
  stderr : String
  log : Option Journal
  requests : List Http.Request

def name : String := CommandLine.Completions.program

def versionText : String := name ++ " 0.1.0\n"

/-- Stands in for a longer text, with what the flags mean. -/
def helpText : String :=
  "Send an event to a Breakpoint ingestion service\n\nUsage: " ++ name
    ++ " [OPTIONS] [TITLE] [EVENT_TYPE] [PRIORITY]\n\nOptions:\n"
    ++ String.join (CommandLine.Flag.all.map fun f => "      " ++ f.shown ++ "\n")

def usage : String := "Usage: " ++ name ++ " <title> [event_type] [priority]\n"

def logDirectory (env : Environment) : String :=
  Files.join (Files.join env.dataDirectory "breakpoint-notify") "logs"

def logPath (env : Environment) : String :=
  Files.join (logDirectory env) "breakpoint-notify.log"

def indentLines (s : String) : String :=
  match s.splitOn "\n" with
  | [] => ""
  | first :: rest =>
    "\n".intercalate (first :: rest.map fun line => if line.isEmpty then line else "      " ++ line)

def causeLine (number : Nat) (cause : String) : String :=
  "\n   " ++ Numeral.decimalText number ++ ": " ++ indentLines cause

def report (error : String) (causes : List String) : String :=
  "Error: " ++ error ++ "\n\nCaused by:"
    ++ String.join (causes.zipIdx.map fun (c, i) => causeLine i c) ++ "\n"

/-- Why there is no log, if there is none. -/
def logTrouble (env : Environment) (files : Files) : Option (List String) :=
  match files.makeDirectory (logDirectory env) with
  | .error why => some ["Failed to create log directory", why.message]
  | .ok () =>
    match files.openFile (logPath env) with
    | .error why => some ["Failed to open log file", why.message]
    | .ok () => none

def filterVariable : String := "RUST_LOG"

def filter? (env : Environment) : Option (Journal.Filter × List String) :=
  (env.get? filterVariable).map Journal.Filter.parse

def filterFaults (env : Environment) : String :=
  match filter? env with
  | none => ""
  | some (_, faults) => String.join (faults.map fun s => "warning: " ++ s ++ ", ignoring it\n")

def filter (env : Environment) (level : LogLevel) : Journal.Filter :=
  match filter? env with
  | none => .level level
  | some (f, _) => f

def noteOpened (env : Environment) : Record :=
  ⟨.info, .program, "Logging initialized, writing to: " ++ logPath env⟩

def noteLevel (env : Environment) (level : LogLevel) : Record :=
  ⟨.info, .program,
    match filter? env with
    | some _ => "Log level: from " ++ filterVariable ++ " env"
    | none => "Log level: " ++ level.name ++ " (from config)"⟩

def noteStart (config : Option String) : Record :=
  ⟨.info, .program,
    "Starting breakpoint-notify with config from: "
      ++ match config with
        | none => "None"
        | some path => "Some(" ++ Text.quote path ++ ")"⟩

def clock (now : Int64) : String :=
  let time := ((Calendar.timestamp? now.toInt).getD "").toList
  String.ofList (time.take (time.length - ".000Z".length)) ++ "Z"

def line (time : String) (r : Record) : String :=
  "[" ++ time ++ " " ++ String.ofList (r.severity.name.toList.rightpad 5 ' ') ++ " "
    ++ r.origin.path ++ "] " ++ "\n    ".intercalate (r.text.splitOn "\n") ++ "\n"

/-- What the program finds once its log is open, with the first record in it. -/
def filesWithLog (s : Start) : Files :=
  let first := (filter s.environment .default).select [noteOpened s.environment]
  (s.files.withDirectory (logDirectory s.environment)).withText (logPath s.environment)
    (String.join (first.map (line (clock s.now))))

def proceed (s : Start) (a : Arguments) (title : String) (notes : Journal) (settings : Settings) :
    Finish :=
  let stamp := (s.counters.stampAt s.now).1
  let coloured := s.environment.coloured s.terminal
  let x := a.run title s.terminal coloured settings.server stamp s.service
  let after := noteLevel s.environment settings.logLevel :: noteStart a.config :: x.journal
  { status := x.status
    stdout := x.stdout
    stderr := filterFaults s.environment ++ x.stderr
    log := some ((filter s.environment .default).select notes
      ++ (filter s.environment settings.logLevel).select after)
    requests := x.requests }

def withLog (s : Start) (a : Arguments) (title : String) : Finish :=
  match Settings.load s.environment (filesWithLog s) a.config with
  | (.ok settings, notes) => proceed s a title (noteOpened s.environment :: notes) settings
  | (.error f, notes) =>
    { status := 1
      stdout := ""
      stderr := filterFaults s.environment ++ report "Failed to load configuration" f.chain
      log := some ((filter s.environment .default).select (noteOpened s.environment :: notes))
      requests := [] }

def plain (status : Nat) (stdout stderr : String) : Finish := ⟨status, stdout, stderr, none, []⟩

def run (s : Start) : Finish :=
  match Arguments.parse s.argv with
  | .error .helpWanted => plain 0 helpText ""
  | .error .versionWanted => plain 0 versionText ""
  | .error f => plain 2 "" ("error: " ++ f.message ++ "\n")
  | .ok a =>
    match a.completions, a.title with
    | some shell, _ => plain 0 (CommandLine.Completions.script shell) ""
    | none, none => plain 1 "" usage
    | none, some title =>
      match logTrouble s.environment s.files with
      | some causes => plain 1 "" (report "Failed to setup logging" causes)
      | none => withLog s a title

def fixedVariables : List String :=
  [Settings.pathVariable, Settings.urlVariable, Settings.tokenVariable, Settings.timeoutVariable,
    filterVariable, "HOME", "XDG_CONFIG_HOME", "XDG_DATA_HOME", "CLICOLOR", "CLICOLOR_FORCE",
    "NO_COLOR"]

def variablesOf (path : String) : List String :=
  (Settings.pieces path.toList).filterMap fun
    | .variable name _ => some (String.ofList name)
    | .literal _ => none

def paths (env : Environment) (argv : List String) : List String :=
  let asked := match Arguments.parse argv with
    | .ok a => (a.config.map (Settings.expand env)).toList
    | .error _ => []
  [logDirectory env, logPath env] ++ asked ++ (Settings.candidates env).map (·.path)

end Program

end EventPost
