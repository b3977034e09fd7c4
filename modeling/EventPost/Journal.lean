/-!
The records that a run leaves in its log: how severe each is, which part of the program wrote it,
and its text. Which of them reach the log file is decided elsewhere.
-/

namespace EventPost

inductive Severity
  | error
  | warn
  | info
  | debug
  deriving DecidableEq, Repr

namespace Severity

def name : Severity → String
  | .error => "ERROR"
  | .warn => "WARN"
  | .info => "INFO"
  | .debug => "DEBUG"

def rank : Severity → Nat
  | .error => 1
  | .warn => 2
  | .info => 3
  | .debug => 4

end Severity

inductive Origin
  | program
  | settings
  | event
  | notifier
  | command
  deriving DecidableEq, Repr

def Origin.path : Origin → String
  | .program => "breakpoint_notify"
  | .settings => "breakpoint_notify::config"
  | .event => "breakpoint_notify::event"
  | .notifier => "breakpoint_notify::notifier"
  | .command => "breakpoint_notify::commands::notify"

structure Record where
  severity : Severity
  origin : Origin
  text : String
  deriving DecidableEq, Repr

abbrev Journal := List Record

end EventPost
