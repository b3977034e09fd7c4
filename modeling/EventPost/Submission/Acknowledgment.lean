import EventPost.Json.Field
import EventPost.Submission.Failure

/-!
The service's answer to an event that it took: how many events it counted, and their ids. It is
read from an object with these two members among others, or from the list of the two. An answer
that counts no event is no acknowledgment.
-/

namespace EventPost

open Json (Reading Fault)
open Text (Bytes)

structure Acknowledgment where
  accepted : UInt64
  eventIds : List String
  deriving DecidableEq, Repr

namespace Acknowledgment

def contains (a : Acknowledgment) (id : String) : Bool := a.eventIds.contains id

def toJson (a : Acknowledgment) : Json :=
  .object [("accepted", Json.ofWord a.accepted), ("event_ids", Json.textList a.eventIds)]

def expected : String := "struct Acknowledgment"

def memberDepth : Nat := Json.maxDepth - 1

structure Partial where
  accepted : Option UInt64
  eventIds : Option (List String)

def readMember (p : Partial) (key : String) (bs : Bytes) : Reading Partial :=
  let after (seen : Bool) (read : Bytes → Reading Partial) : Reading Partial :=
    if seen then Json.fail (.duplicateField key) (Json.behindObject bs)
    else match Json.readColon bs with
      | .error e => .error e
      | .ok bs => read bs
  if key = "accepted" then
    after p.accepted.isSome fun bs =>
      match Json.wordField bs with
      | .error e => .error e
      | .ok (n, rest) => .ok (⟨some n, p.eventIds⟩, rest)
  else if key = "event_ids" then
    after p.eventIds.isSome fun bs =>
      match Json.textListField memberDepth bs with
      | .error e => .error e
      | .ok (ids, rest) => .ok (⟨p.accepted, some ids⟩, rest)
  else
    after false fun bs =>
      match Json.skipValue bs with
      | .error e => .error e
      | .ok rest => .ok (p, rest)

def Partial.finish (p : Partial) (rest : Bytes) : Reading Acknowledgment :=
  match p.accepted, p.eventIds with
  | some n, some ids => .ok (⟨n, ids⟩, rest)
  | none, _ => Json.fail (.missingField "accepted") rest
  | some _, none => Json.fail (.missingField "event_ids") rest

def beforeItem (length : Nat) (bs : Bytes) : Except Fault Bytes :=
  match Json.skipBlanks bs with
  | [] => Json.failAt .endInList []
  | b :: r =>
    if b = 0x5d then
      Json.fail (.wrongLength length (expected ++ " with 2 elements")) r
    else if length = 0 then .ok (b :: r)
    else if b = 0x2c then
      match Json.skipBlanks r with
      | [] => Json.failAt .endInValue []
      | c :: r => if c = 0x5d then Json.failAt .trailingComma (c :: r) else .ok (c :: r)
    else Json.failAt .expectedItemEnd (b :: r)

def closeList (bs : Bytes) : Except Fault Bytes :=
  match Json.skipBlanks bs with
  | [] => Json.failAt .endInList []
  | b :: r =>
    if b = 0x5d then .ok r
    else if b = 0x2c then
      match Json.skipBlanks r with
      | c :: r =>
        if c = 0x5d then Json.failAt .trailingComma (c :: r)
        else Json.failAt .trailingText (c :: r)
      | [] => Json.failAt .trailingText []
    else Json.failAt .trailingText (b :: r)

def readPair (bs : Bytes) : Except Fault (Acknowledgment × Bytes) := do
  let bs ← beforeItem 0 bs
  let (n, bs) ← Json.wordField bs
  let bs ← beforeItem 1 bs
  let (ids, bs) ← Json.textListField memberDepth bs
  let bs ← closeList bs
  return (⟨n, ids⟩, bs)

def read (bs : Bytes) : Reading Acknowledgment :=
  match Json.skipBlanks bs with
  | [] => Json.failAt .endInValue []
  | b :: r =>
    if b = 0x5b then readPair r
    else if b = 0x7b then
      match Json.foldMembers readMember r.length true ⟨none, none⟩ r with
      | .error e => .error e
      | .ok (p, rest) => p.finish rest
    else Json.wrongKind expected b r

def decode (bs : Bytes) : Except Fault Acknowledgment := Json.readWhole read bs

def ofBody (body : Bytes) : Except Failure Acknowledgment :=
  match decode body with
  | .error e => .error (.decode (e.message body) (Text.decodeLossy body))
  | .ok a =>
    if a.accepted = 0 then
      .error (.decode "service acknowledged no events" (Text.decodeLossy body))
    else .ok a

end Acknowledgment

end EventPost
