import EventPost.Files.Basic
import EventPost.Settings.Expansion
import EventPost.Settings.Reader

/-!
Where settings come from. A file that is asked for by name must load. Otherwise the first of three
files that is there and loads is taken, and without one the defaults are; a file that is there and
does not load is noted. The environment has the last word.
-/

namespace EventPost

namespace Settings

inductive FileTrouble
  | unreadable (why : Files.Fault)
  | malformed (why : Yaml.Trouble)
  deriving DecidableEq, Repr

namespace FileTrouble

def summary : FileTrouble → String
  | .unreadable _ => "Failed to read config file"
  | .malformed _ => "Failed to parse config file"

def detail : FileTrouble → String
  | .unreadable why => why.message
  | .malformed why => why.message

end FileTrouble

/-- The file that was asked for did not load. -/
structure LoadFailure where
  path : String
  trouble : FileTrouble
  deriving DecidableEq, Repr

def LoadFailure.chain (f : LoadFailure) : List String :=
  ["Failed to load config from " ++ f.path, f.trouble.summary, f.trouble.detail]

def readFile (files : Files) (path : String) : Except FileTrouble Settings :=
  match files.readText path with
  | .error why => .error (.unreadable why)
  | .ok text =>
    match parse text with
    | .error why => .error (.malformed why)
    | .ok s => .ok s

def noteLoaded (path : String) (s : Settings) : Journal :=
  (if s.server.token.isEmpty then []
    else [⟨.warn, .settings,
      "server.token is set in config file, prefer the " ++ tokenVariable ++ " env var"⟩])
    ++ [⟨.info, .settings, "Loaded config from: " ++ path⟩]

/-- A file that is tried when none is asked for, and what it is called if it does not load. -/
structure Candidate where
  path : String
  label : String
  deriving DecidableEq, Repr

def noteFailed (c : Candidate) (t : FileTrouble) : Record :=
  ⟨.warn, .settings, "Failed to load " ++ c.label ++ ": " ++ t.summary⟩

end Settings

/-- A directory of the user's. The value of a variable, if it is absolute, moves it from its place
below the home directory. -/
def Environment.directory? (env : Environment) (name place : String) : Option String :=
  ((env.get? name).filter (·.startsWith "/")).or
    (env.home?.map fun home => Files.join home place)

def Environment.configDirectory? (env : Environment) : Option String :=
  env.directory? "XDG_CONFIG_HOME" ".config"

namespace Settings

def localName : String := "breakpoint-notify.yaml"

def candidates (env : Environment) : List Candidate :=
  ((env.get? pathVariable).map fun s =>
      (⟨expand env s, "config from " ++ pathVariable⟩ : Candidate)).toList
    ++ (env.configDirectory?.map fun dir =>
      let path := Files.join (Files.join dir "breakpoint") "notify.yaml"
      (⟨path, "config from " ++ path⟩ : Candidate)).toList
    ++ [⟨localName, "local config"⟩]

def firstOf (files : Files) : List Candidate → Option Settings × Journal
  | [] => (none, [])
  | c :: rest =>
    if files.exist c.path then
      match readFile files c.path with
      | .ok s => (some s, noteLoaded c.path s)
      | .error t => ((firstOf files rest).1, noteFailed c t :: (firstOf files rest).2)
    else firstOf files rest

def noteDefaults : Record := ⟨.info, .settings, "No config file found, using defaults"⟩

def loadFile (env : Environment) (files : Files) (path : Option String) :
    Except LoadFailure Settings × Journal :=
  match path with
  | some p =>
    let p := expand env p
    match readFile files p with
    | .ok s => (.ok s, noteLoaded p s)
    | .error t => (.error ⟨p, t⟩, [])
  | none =>
    match firstOf files (candidates env) with
    | (some s, notes) => (.ok s, notes)
    | (none, notes) => (.ok .default, notes ++ [noteDefaults])

def load (env : Environment) (files : Files) (path : Option String) :
    Except LoadFailure Settings × Journal :=
  match loadFile env files path with
  | (.error f, notes) => (.error f, notes)
  | (.ok s, notes) => (.ok (override env.get? s).1, notes ++ (override env.get? s).2)

end Settings

end EventPost
