import EventPost.CommandLine.Arguments
import EventPost.Event.Notification
import EventPost.Settings.Basic

/-!
The notification that a command line asks for. Entries given as fields come last, so that they can
take the place of what the other flags set.
-/

namespace EventPost.CommandLine.Arguments

/-- What the flags with a meaning of their own set, in a fixed order, and then the fields. -/
def settings (a : Arguments) : List Setting :=
  (a.eventType.map .eventType).toList
    ++ (a.priority.map .priority).toList
    ++ (a.body.map .body).toList
    ++ (a.url.map .url).toList
    ++ (a.actor.map .actor).toList
    ++ (if a.tags.isEmpty then [] else [.tags a.tags])
    ++ (if a.actionRequired then [.actionRequired true] else [])
    ++ (a.groupKey.map .groupKey).toList
    ++ (a.expiresAt.map .expiresAt).toList
    ++ (if a.metadata.isEmpty then [] else [.metadata a.metadata])
    ++ [.fields a.fields]

def notification (a : Arguments) (title : String) : Notification :=
  .build title a.settings

/-- The service that a command line names, and the time that it allows, go before the settings. -/
def serverSettings (a : Arguments) (s : ServerSettings) : ServerSettings :=
  { s with
    url := a.server.getD s.url
    timeoutSecs := a.timeoutSecs.getD s.timeoutSecs }

end EventPost.CommandLine.Arguments
