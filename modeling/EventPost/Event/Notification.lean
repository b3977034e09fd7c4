import EventPost.Json.Basic
import EventPost.Table

/-!
A notification is what a caller asks to be told: a title, and whatever else it sets. Every setter
beyond the event type and the priority puts an extension field.
-/

namespace EventPost

structure Notification where
  title : String
  eventType : Option String
  priority : Option String
  fields : Table Json

namespace Notification

def new (title : String) : Notification := ⟨title, none, none, .empty⟩

def withEventType (n : Notification) (s : String) : Notification := { n with eventType := some s }

/-- Any text is taken: the service decides. -/
def withPriority (n : Notification) (s : String) : Notification := { n with priority := some s }

def withField (n : Notification) (key : String) (value : Json) : Notification :=
  { n with fields := n.fields.insert key value }

def withFields (n : Notification) (entries : List (String × Json)) : Notification :=
  { n with fields := n.fields.insertAll entries }

def withBody (n : Notification) (s : String) : Notification := n.withField "body" (.text s)

def withUrl (n : Notification) (s : String) : Notification := n.withField "url" (.text s)

def withActor (n : Notification) (s : String) : Notification := n.withField "actor" (.text s)

def withTags (n : Notification) (tags : List String) : Notification :=
  n.withField "tags" (Json.textList tags)

def withActionRequired (n : Notification) (required : Bool) : Notification :=
  n.withField "action_required" (.boolean required)

def withGroupKey (n : Notification) (s : String) : Notification := n.withField "group_key" (.text s)

def withExpiresAt (n : Notification) (s : String) : Notification :=
  n.withField "expires_at" (.text s)

/-- The entries become one object, ordered by key. -/
def withMetadata (n : Notification) (entries : List (String × Json)) : Notification :=
  n.withField "metadata" (Json.ofMembers entries)

end Notification

inductive Setting
  | eventType (s : String)
  | priority (s : String)
  | body (s : String)
  | url (s : String)
  | actor (s : String)
  | tags (ts : List String)
  | actionRequired (required : Bool)
  | groupKey (s : String)
  | expiresAt (s : String)
  | metadata (entries : List (String × Json))
  | field (key : String) (value : Json)
  | fields (entries : List (String × Json))

def Setting.apply (n : Notification) : Setting → Notification
  | .eventType s => n.withEventType s
  | .priority s => n.withPriority s
  | .body s => n.withBody s
  | .url s => n.withUrl s
  | .actor s => n.withActor s
  | .tags ts => n.withTags ts
  | .actionRequired required => n.withActionRequired required
  | .groupKey s => n.withGroupKey s
  | .expiresAt s => n.withExpiresAt s
  | .metadata entries => n.withMetadata entries
  | .field k v => n.withField k v
  | .fields entries => n.withFields entries

def Notification.build (title : String) (settings : List Setting) : Notification :=
  settings.foldl Setting.apply (.new title)

end EventPost
