import EventPost.Event.Basic
import EventPost.Json.Field

/-!
Events read from JSON. Each core field must be there once, as a string. All other members become
extension fields, of which a repeated name keeps its first place and its last value.
-/

namespace EventPost.Event

open Json (Reading Fault)
open Text (Bytes)

/-- The core fields read so far, and the other members in reverse. -/
structure Partial where
  core : List (String × String)
  others : List (String × Json)

def expected : String := "struct Event"

def memberDepth : Nat := Json.maxDepth - 1

def readMember (p : Partial) (key : String) (bs : Bytes) : Reading Partial :=
  if isReserved key then
    if (p.core.lookup key).isSome then
      Json.fail (.duplicateField key) (Json.behindObject bs)
    else match Json.readColon bs with
      | .error e => .error e
      | .ok bs =>
        match Json.textField bs with
        | .error e => .error e
        | .ok (s, rest) => .ok (⟨(key, s) :: p.core, p.others⟩, rest)
  else match Json.memberStep (Json.readValue memberDepth) p.others key bs with
    | .error e => .error e
    | .ok (others, rest) => .ok (⟨p.core, others⟩, rest)

def Partial.finish (p : Partial) : Except String Event := do
  let field (name : String) : Except String String :=
    match p.core.lookup name with
    | some s => .ok s
    | none => .error name
  return {
    id := ← field "id"
    eventType := ← field "event_type"
    source := ← field "source"
    priority := ← field "priority"
    title := ← field "title"
    timestamp := ← field "timestamp"
    fields := .ofList p.others.reverse }

def read (bs : Bytes) : Reading Event :=
  match Json.skipBlanks bs with
  | [] => Json.failAt .endInValue []
  | b :: r =>
    if b = 0x7b then
      match Json.foldMembers readMember r.length true ⟨[], []⟩ r with
      | .error e => .error e
      | .ok (p, rest) =>
        match p.finish with
        | .ok e => .ok (e, rest)
        | .error name => Json.fail (.missingField name) rest
    else Json.wrongKind expected b r

def parse (bs : Bytes) : Except Fault Event := Json.readWhole read bs

end EventPost.Event
