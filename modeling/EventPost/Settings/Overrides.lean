import EventPost.Journal
import EventPost.Settings.Basic
import EventPost.Text.Blank

/-!
Environment variables that take the place of what a file says about the service. An empty address
and a time that is not a positive number are passed over; an empty token counts.
-/

namespace EventPost

/-- What a program is started with: its variables, and the home directory of the account that it
runs under, if there is one. -/
structure Environment where
  bindings : List (String × String)
  accountHome : Option String
  deriving DecidableEq, Repr

/-- Variables that are set one after the other, for an account without a home. -/
instance : Coe (List (String × String)) Environment where
  coe set := ⟨set.reverse, none⟩

/-- The first value of a repeated name counts. -/
def Environment.get? (env : Environment) (name : String) : Option String :=
  env.bindings.lookup name

namespace Settings

def pathVariable : String := "BREAKPOINT_NOTIFY_CONFIG"

def urlVariable : String := "BREAKPOINT_URL"

def tokenVariable : String := "BREAKPOINT_API_TOKEN"

def timeoutVariable : String := "BREAKPOINT_TIMEOUT_SECS"

/-- A positive number of seconds, with blanks around it. -/
def readTimeout? (s : String) : Option UInt64 :=
  match Numeral.readWord (Text.trimChars s.toList) with
  | .ok n => if 0 < n then some n else none
  | .error _ => none

def overrideUrl (lookup : String → Option String) (url : String) : String :=
  match lookup urlVariable with
  | some s => if s.isEmpty then url else s
  | none => url

def overrideToken (lookup : String → Option String) (token : String) : String :=
  (lookup tokenVariable).getD token

def overrideTimeout (lookup : String → Option String) (secs : UInt64) : UInt64 :=
  ((lookup timeoutVariable).bind readTimeout?).getD secs

def noteTimeout (lookup : String → Option String) : Journal :=
  match lookup timeoutVariable with
  | none => []
  | some s =>
    if (readTimeout? s).isSome then []
    else [⟨.warn, .settings, "Ignoring invalid " ++ timeoutVariable ++ "=" ++ Text.quote s⟩]

def noteToken (token : String) : Journal :=
  if token.isEmpty then
    [⟨.debug, .settings, "No API token configured, requests will carry an empty bearer token"⟩]
  else []

def overrideServer (lookup : String → Option String) (s : ServerSettings) : ServerSettings :=
  { url := overrideUrl lookup s.url
    token := overrideToken lookup s.token
    timeoutSecs := overrideTimeout lookup s.timeoutSecs }

def override (lookup : String → Option String) (s : Settings) : Settings × Journal :=
  let server := overrideServer lookup s.server
  (⟨server, s.logLevel⟩, noteTimeout lookup ++ noteToken server.token)

end Settings

end EventPost
