import EventPost.CommandLine.Entry
import EventPost.CommandLine.Flag
import EventPost.CommandLine.Report

/-!
What a command line asks for. Up to three words stand by themselves, and flags stand anywhere
before a double dash. A flag's value follows an equals sign or is the next argument; the value of
a flag, and its absence, are looked at when the next flag or word comes.
-/

namespace EventPost.CommandLine

/-- A shell that can be taught to complete the program's flags. -/
inductive Shell
  | bash
  | elvish
  | fish
  | powershell
  | zsh
  deriving DecidableEq, Repr

namespace Shell

def all : List Shell := [bash, elvish, fish, powershell, zsh]

def name : Shell → String
  | bash => "bash"
  | elvish => "elvish"
  | fish => "fish"
  | powershell => "powershell"
  | zsh => "zsh"

def ofName? (name : String) : Option Shell := all.find? (·.name = name)

theorem ofName?_name (s : Shell) : ofName? s.name = some s := by cases s <;> decide

end Shell

structure Arguments where
  title : Option String
  eventType : Option String
  priority : Option String
  body : Option String
  url : Option String
  actor : Option String
  tags : List String
  actionRequired : Bool
  groupKey : Option String
  expiresAt : Option String
  metadata : List (String × Json)
  fields : List (String × Json)
  server : Option String
  timeoutSecs : Option UInt64
  dryRun : Bool
  format : Option Format
  config : Option String
  completions : Option Shell
  deriving BEq, Repr

def Arguments.none : Arguments :=
  { title := Option.none, eventType := Option.none, priority := Option.none, body := Option.none
    url := Option.none, actor := Option.none, tags := [], actionRequired := false
    groupKey := Option.none, expiresAt := Option.none, metadata := [], fields := []
    server := Option.none, timeoutSecs := Option.none, dryRun := false, format := Option.none
    config := Option.none, completions := Option.none }

/-- Why a command line is not read to its end. The last two are wishes rather than faults. -/
inductive ArgumentFault
  | unknown (arg : String)
  /-- A value that is missing, empty, or none of those that the flag knows. -/
  | noChoice (f : Flag) (value : String)
  | badValue (f : Flag) (value : String) (why : String)
  | unexpectedValue (f : Flag) (value : String)
  | repeated (f : Flag)
  /-- The flag goes with no other argument. -/
  | notAlone (f : Flag)
  | helpWanted
  | versionWanted
  deriving DecidableEq, Repr

def ArgumentFault.message : ArgumentFault → String
  | .unknown arg => "unexpected argument '" ++ arg ++ "' found"
  | .noChoice f value =>
    if value.isEmpty then "a value is required for '" ++ f.shown ++ "' but none was supplied"
    else "invalid value '" ++ value ++ "' for '" ++ f.shown ++ "'"
  | .badValue f value why => "invalid value '" ++ value ++ "' for '" ++ f.shown ++ "': " ++ why
  | .unexpectedValue f value =>
    "unexpected value '" ++ value ++ "' for '" ++ f.shown ++ "' found; no more were expected"
  | .repeated f => "the argument '" ++ f.shown ++ "' cannot be used multiple times"
  | .notAlone f =>
    "the argument '" ++ f.shown
      ++ "' cannot be used with one or more of the other specified arguments"
  | .helpWanted | .versionWanted => ""

def readTimeout (value : String) : Except ArgumentFault UInt64 :=
  match Numeral.readWord value.toList with
  | .error e => .error (.badValue .timeout value e.message)
  | .ok n =>
    if n = 0 then
      .error (.badValue .timeout value
        ("0 is not in 1.." ++ Numeral.decimalText Numeral.maxWord))
    else .ok n

def choose {α : Type} (f : Flag) (ofName? : String → Option α) (value : String) :
    Except ArgumentFault α :=
  match ofName? value with
  | some v => .ok v
  | none => .error (.noChoice f value)

def entry (f : Flag) (value : String) : Except ArgumentFault (String × Json) :=
  (readEntry value).mapError fun e => .badValue f value e.message

namespace Arguments

def put (a : Arguments) (value : String) : Flag → Except ArgumentFault Arguments
  | .body => .ok { a with body := some value }
  | .url => .ok { a with url := some value }
  | .actor => .ok { a with actor := some value }
  | .tag => .ok { a with tags := a.tags ++ [value] }
  | .actionRequired => .ok { a with actionRequired := true }
  | .groupKey => .ok { a with groupKey := some value }
  | .expiresAt => .ok { a with expiresAt := some value }
  | .metadata => (entry .metadata value).map fun e => { a with metadata := a.metadata ++ [e] }
  | .field => (entry .field value).map fun e => { a with fields := a.fields ++ [e] }
  | .server => .ok { a with server := some value }
  | .timeout => (readTimeout value).map fun n => { a with timeoutSecs := some n }
  | .dryRun => .ok { a with dryRun := true }
  | .format => (choose .format Format.ofName? value).map fun v => { a with format := some v }
  | .config =>
    if value.isEmpty then .error (.noChoice .config value) else .ok { a with config := some value }
  | .completions =>
    (choose .completions Shell.ofName? value).map fun v => { a with completions := some v }
  | .help => .error .helpWanted
  | .version => .error .versionWanted

def putWord (a : Arguments) (word : String) : Arguments :=
  if a.title.isNone then { a with title := some word }
  else if a.eventType.isNone then { a with eventType := some word }
  else { a with priority := some word }

end Arguments

structure Progress where
  arguments : Arguments
  /-- The flags taken up. -/
  seen : List Flag
  /-- The flag that waits to be taken up, with its value once that has come. -/
  waiting : Option (Flag × Option String)
  /-- Past the double dash. -/
  plain : Bool

namespace Progress

def start : Progress := ⟨.none, [], none, false⟩

def take (p : Progress) (f : Flag) (value : String) : Except ArgumentFault Progress :=
  if !f.repeats && p.seen.contains f then .error (.repeated f)
  else (p.arguments.put value f).map fun a => { p with arguments := a, seen := f :: p.seen }

def settle (p : Progress) : Except ArgumentFault Progress :=
  match p.waiting with
  | none => .ok p
  | some (f, none) => .error (.noChoice f "")
  | some (f, some value) => { p with waiting := none }.take f value

def word (p : Progress) (s : String) : Except ArgumentFault Progress :=
  if p.arguments.priority.isSome then .error (.unknown s)
  else p.settle.map fun p => { p with arguments := p.arguments.putWord s }

def flag (p : Progress) (f : Flag) (value : Option String) : Except ArgumentFault Progress :=
  if f.takesValue then
    match p.settle, value with
    | .error e, _ => .error e
    | .ok p, some v => p.take f v
    | .ok p, none => .ok { p with waiting := some (f, none) }
  else
    match value with
    | some v => .error (.unexpectedValue f v)
    | none =>
      match p.settle with
      | .error e => .error e
      | .ok p => p.take f ""

/-- Letters behind one dash. What follows the letter of a flag that takes a value is the value. -/
def letters (p : Progress) : List Char → Except ArgumentFault Progress
  | [] => .ok p
  | c :: cs =>
    match Flag.ofLetter? c with
    | none => .error (.unknown (String.ofList ['-', c]))
    | some f =>
      if f.takesValue then
        p.flag f <| match cs with
          | [] => none
          | '=' :: v => some (String.ofList v)
          | v => some (String.ofList v)
      else
        match p.flag f none with
        | .error e => .error e
        | .ok p => p.letters cs

def named (p : Progress) (cs : List Char) : Except ArgumentFault Progress :=
  let (name, value) := match splitOnce '=' cs with
    | some (name, value) => (name, some (String.ofList value))
    | none => (cs, none)
  match Flag.ofName? (String.ofList name) with
  | none => .error (.unknown (String.ofList ('-' :: '-' :: name)))
  | some f => p.flag f value

def step (p : Progress) (arg : String) : Except ArgumentFault Progress :=
  if p.plain then p.word arg
  else match arg.toList with
    | ['-', '-'] => .ok { p with plain := true }
    | '-' :: '-' :: cs => p.named cs
    | '-' :: c :: cs => p.letters (c :: cs)
    | _ =>
      match p.waiting with
      | some (f, none) => .ok { p with waiting := some (f, some arg) }
      | _ => p.word arg

def finish (p : Progress) : Except ArgumentFault Arguments :=
  match p.settle with
  | .error e => .error e
  | .ok p =>
    if p.seen.contains .completions
        && (p.arguments.title.isSome || p.seen.any (· ≠ .completions)) then
      .error (.notAlone .completions)
    else .ok p.arguments

end Progress

def Arguments.parse (argv : List String) : Except ArgumentFault Arguments :=
  match argv.foldlM Progress.step Progress.start with
  | .error e => .error e
  | .ok p => p.finish

end EventPost.CommandLine
