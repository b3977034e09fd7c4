/-!
The flags of the command line: their names, and what follows each of them.
-/

namespace EventPost.CommandLine

inductive Flag
  | body
  | url
  | actor
  | tag
  | actionRequired
  | groupKey
  | expiresAt
  | metadata
  | field
  | server
  | timeout
  | dryRun
  | format
  | config
  | completions
  | help
  | version
  deriving DecidableEq, Repr

namespace Flag

def all : List Flag :=
  [body, url, actor, tag, actionRequired, groupKey, expiresAt, metadata, field, server, timeout,
    dryRun, format, config, completions, help, version]

def name : Flag → String
  | body => "body"
  | url => "url"
  | actor => "actor"
  | tag => "tag"
  | actionRequired => "action-required"
  | groupKey => "group-key"
  | expiresAt => "expires-at"
  | metadata => "meta"
  | field => "field"
  | server => "server"
  | timeout => "timeout"
  | dryRun => "dry-run"
  | format => "format"
  | config => "config"
  | completions => "completions"
  | help => "help"
  | version => "version"

def letter? : Flag → Option Char
  | format => some 'o'
  | config => some 'c'
  | help => some 'h'
  | version => some 'V'
  | _ => none

def valueName? : Flag → Option String
  | body => some "BODY"
  | url => some "URL"
  | actor => some "ACTOR"
  | tag => some "TAG"
  | groupKey => some "GROUP_KEY"
  | expiresAt => some "EXPIRES_AT"
  | metadata => some "KEY=VALUE"
  | field => some "KEY=VALUE"
  | server => some "URL"
  | timeout => some "SECS"
  | format => some "FORMAT"
  | config => some "CONFIG"
  | completions => some "SHELL"
  | actionRequired | dryRun | help | version => none

def takesValue (f : Flag) : Bool := f.valueName?.isSome

def repeats : Flag → Bool
  | tag | metadata | field => true
  | _ => false

def ofName? (name : String) : Option Flag := all.find? (·.name = name)

def ofLetter? (c : Char) : Option Flag := all.find? (·.letter? = some c)

def shown (f : Flag) : String :=
  "--" ++ f.name ++ match f.valueName? with
    | some v => " <" ++ v ++ ">"
    | none => ""

theorem ofName?_name (f : Flag) : ofName? f.name = some f := by cases f <;> decide

end Flag

end EventPost.CommandLine
