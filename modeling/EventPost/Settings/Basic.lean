import EventPost.Numeral.Decimal
import EventPost.Text.Quoted

/-!
What the program is told about the service: where it is, the token it wants, how long to wait for
it, and how much of what happens goes into the log.
-/

namespace EventPost

open Numeral (decimalText)

structure ServerSettings where
  /-- The service's base address, without the path of the event endpoint. -/
  url : String
  /-- Empty when the service asks for none. -/
  token : String
  timeoutSecs : UInt64
  deriving DecidableEq, Repr

namespace ServerSettings

def default : ServerSettings := ⟨"http://localhost:8080", "", 10⟩

/-- The time allowed for one submission, in seconds; never zero. -/
def effectiveTimeout (s : ServerSettings) : Nat := max 1 s.timeoutSecs.toNat

theorem effectiveTimeout_pos (s : ServerSettings) : 0 < s.effectiveTimeout := by
  simp only [effectiveTimeout]; omega

/-- Says whether there is a token, and never which. -/
def describe (s : ServerSettings) : String :=
  "ServerConfig \x7b url: " ++ Text.quote s.url
    ++ ", token: " ++ Text.quote (if s.token.isEmpty then "<empty>" else "<redacted>")
    ++ ", timeout_secs: " ++ decimalText s.timeoutSecs.toNat ++ " \x7d"

end ServerSettings

inductive LogLevel
  | trace
  | debug
  | info
  | warn
  | error
  | off
  deriving DecidableEq, Repr

namespace LogLevel

def all : List LogLevel := [trace, debug, info, warn, error, off]

def name : LogLevel → String
  | trace => "trace"
  | debug => "debug"
  | info => "info"
  | warn => "warn"
  | error => "error"
  | off => "off"

def capitals : LogLevel → String
  | trace => "TRACE"
  | debug => "DEBUG"
  | info => "INFO"
  | warn => "WARN"
  | error => "ERROR"
  | off => "OFF"

def ofName? (name : String) : Option LogLevel := all.find? (·.name = name)

def default : LogLevel := info

def rank : LogLevel → Nat
  | off => 0
  | error => 1
  | warn => 2
  | info => 3
  | debug => 4
  | trace => 5

theorem ofName?_name (l : LogLevel) : ofName? l.name = some l := by cases l <;> decide

end LogLevel

structure Settings where
  server : ServerSettings
  logLevel : LogLevel
  deriving DecidableEq, Repr

def Settings.default : Settings := ⟨.default, .default⟩

end EventPost
