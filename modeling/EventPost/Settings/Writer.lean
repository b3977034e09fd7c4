import EventPost.Settings.Basic
import EventPost.Yaml.Writer

/-!
Settings written as the YAML text of a configuration file.
-/

namespace EventPost

def ServerSettings.toJson (s : ServerSettings) : Json :=
  .object [("url", .text s.url), ("token", .text s.token),
    ("timeout_secs", Json.ofWord s.timeoutSecs)]

namespace Settings

def toJson (s : Settings) : Json :=
  .object [("server", s.server.toJson), ("log_level", .text s.logLevel.name)]

def toYaml (s : Settings) : String := Yaml.text s.toJson

end Settings

end EventPost
