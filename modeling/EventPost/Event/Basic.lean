import EventPost.Event.Notification
import EventPost.Event.Vocabulary
import EventPost.Journal
import EventPost.Json.Writer
import EventPost.Stamp.Basic

/-!
The event that is sent for a notification. Its six core fields belong to the client: an extension
field of such a name is left out and noted in the log, and the other extension fields follow the
core ones in the order in which they were set.
-/

namespace EventPost

structure Event where
  id : String
  eventType : String
  source : String
  priority : String
  title : String
  timestamp : String
  fields : Table Json

namespace Event

def ofNotification (n : Notification) (stamp : Stamp) : Event :=
  { id := stamp.id
    eventType := n.eventType.getD defaultType
    source := clientSource
    priority := n.priority.getD Priority.default.name
    title := n.title
    timestamp := stamp.timestamp
    fields := n.fields.filterKeys (!isReserved ·) }

def noteType (eventType : String) : Journal :=
  if knownTypes.contains eventType then []
  else [⟨.debug, .event,
    "Event type '" ++ eventType ++ "' is not a well-known type, sending as-is"⟩]

def notePriority (priority : String) : Journal :=
  if (Priority.ofName? priority).isSome then []
  else [⟨.warn, .event,
    "Priority '" ++ priority ++ "' is not a known tier, the service may reject it"⟩]

def noteReserved (key : String) : Record :=
  ⟨.warn, .event, "Ignoring extension field '" ++ key ++ "': reserved for the client"⟩

def journalOf (n : Notification) : Journal :=
  noteType (n.eventType.getD defaultType)
    ++ notePriority (n.priority.getD Priority.default.name)
    ++ (n.fields.keys.filter isReserved).map noteReserved

def core (e : Event) : List (String × Json) := [
  ("id", .text e.id), ("event_type", .text e.eventType), ("source", .text e.source),
  ("priority", .text e.priority), ("title", .text e.title), ("timestamp", .text e.timestamp)]

def members (e : Event) : List (String × Json) := e.core ++ e.fields.entries

def toJson (e : Event) : Json := .object e.members

def encode (e : Event) : String := e.toJson.compact

end Event

end EventPost
