import EventPost.Event.Basic
import EventPost.Submission.Acknowledgment.Yaml
import EventPost.Text.Paint
import EventPost.Yaml.Writer

/-!
What the program tells its caller: the event that a dry run would send, the acknowledgment of one
that was sent, or why none came.
-/

namespace EventPost.CommandLine

open Text (paint)

inductive Format
  | text
  | json
  | yaml
  deriving DecidableEq, Repr

namespace Format

def all : List Format := [text, json, yaml]

def name : Format → String
  | text => "text"
  | json => "json"
  | yaml => "yaml"

def ofName? (name : String) : Option Format := all.find? (·.name = name)

def resolve (choice : Option Format) (terminal : Bool) : Format :=
  choice.getD (if terminal then text else json)

end Format

namespace Report

def ofEvent (coloured : Bool) (format : Format) (endpoint : String) (e : Event) : String :=
  match format with
  | .json => e.toJson.pretty ++ "\n"
  | .yaml => Yaml.text e.toJson
  | .text =>
    paint coloured .blue "→" ++ " Would POST to " ++ paint coloured .cyan endpoint ++ "\n"
      ++ e.toJson.pretty ++ "\n"

def ofAcknowledgment (coloured : Bool) (format : Format) (a : Acknowledgment) : String :=
  match format with
  | .json => a.toJson.pretty ++ "\n"
  | .yaml => a.toYaml
  | .text =>
    paint coloured .green "✓" ++ " Accepted " ++ Numeral.decimalText a.accepted.toNat
      ++ " event(s): " ++ paint coloured .cyan (", ".intercalate a.eventIds) ++ "\n"

def ofFailure (coloured : Bool) (endpoint : String) (f : Failure) : String :=
  paint coloured .red "✗" ++ " " ++ f.describe endpoint ++ "\n"

end Report

end EventPost.CommandLine
