import EventPost.Settings.Basic
import EventPost.Yaml.Field

/-!
Settings read from a YAML text. What the text leaves out keeps its default, keys that are not known
are passed over, and no key may come twice.
-/

namespace EventPost

open Yaml (Document Items Outcome Path Trouble once skipped)

namespace ServerSettings

/-- What a text says of the service. -/
structure Given where
  url : Option String
  token : Option String
  timeoutSecs : Option UInt64

def Given.none : Given := ⟨Option.none, Option.none, Option.none⟩

def Given.settings (g : Given) : ServerSettings :=
  ⟨g.url.getD default.url, g.token.getD default.token, g.timeoutSecs.getD default.timeoutSecs⟩

end ServerSettings

namespace Settings

def readServerMember (d : Document) (g : ServerSettings.Given) (key : String) (path : Path)
    (items : Items) : Outcome ServerSettings.Given :=
  if key = "url" then
    once key g.url (Yaml.readText d "a string" path items) fun v => { g with url := some v }
  else if key = "token" then
    once key g.token (Yaml.readText d "a string" path items) fun v => { g with token := some v }
  else if key = "timeout_secs" then
    once key g.timeoutSecs (Yaml.readWord d path items) fun v => { g with timeoutSecs := some v }
  else skipped d g items

def readServer (d : Document) (path : Path) (items : Items) : Outcome ServerSettings :=
  match Yaml.readMapping d "struct ServerConfig" .none path (readServerMember d) items with
  | .error e => .error e
  | .ok (g, rest) => .ok (g.settings, rest)

/-- What a text says. -/
structure Given where
  server : Option ServerSettings
  logLevel : Option LogLevel

def Given.settings (g : Given) : Settings :=
  ⟨g.server.getD .default, g.logLevel.getD .default⟩

def readMember (d : Document) (g : Given) (key : String) (path : Path) (items : Items) :
    Outcome Given :=
  if key = "server" then
    once key g.server (readServer d path items) fun v => { g with server := some v }
  else if key = "log_level" then
    once key g.logLevel
      (Yaml.readChoice d (LogLevel.all.map (·.name)) LogLevel.ofName? path items)
      fun v => { g with logLevel := some v }
  else skipped d g items

def read (d : Document) (items : Items) : Outcome Settings :=
  match Yaml.readMapping d "struct Config" ⟨none, none⟩ [] (readMember d) items with
  | .error e => .error e
  | .ok (g, rest) => .ok (g.settings, rest)

def parse (text : String) : Except Trouble Settings := Yaml.readDocument read text

end Settings

end EventPost
