import EventPost.Stamp.Calendar

/-!
Identities and times for events. Two counters hold the last number and the last time given out. The
next number is the clock's reading if that is larger, else one more than the last; the next time is
the larger of the reading and the last time. So numbers increase strictly and times never decrease,
whatever the clock does.
-/

namespace EventPost

open Numeral (signedText)

structure Stamp where
  id : String
  timestamp : String
  deriving DecidableEq, Repr

namespace Stamp

def idStem : String := "rs"

def idText (n : Int64) : String := idStem ++ "-" ++ signedText n.toInt

def nextId (last now : Int64) : Int64 := if last < now then now else last + 1

/-- The text of a time. A time that the calendar does not cover is given as the text of `fallback`,
the clock's reading when the text is made. -/
def timeText (fallback : Int) (ms : Int64) : String :=
  match Calendar.timestamp? ms.toInt with
  | some s => s
  | none => (Calendar.timestamp? fallback).getD ""

end Stamp

structure Counters where
  lastId : Int64
  lastTime : Int64
  deriving DecidableEq, Repr

namespace Counters

def initial : Counters := ⟨0, 0⟩

def standing (ms : Int64) : Counters := ⟨ms, ms⟩

def stampAt (c : Counters) (now : Int64) : Stamp × Counters :=
  let id := Stamp.nextId c.lastId now
  let time := max c.lastTime now
  (⟨Stamp.idText id, Stamp.timeText now.toInt time⟩, ⟨id, time⟩)

/-- A reading that the calendar does not cover gives no stamp and changes nothing. -/
def stamp? (c : Counters) (now : Int) : Option (Stamp × Counters) :=
  if Calendar.Representable now then some (c.stampAt (Int64.ofInt now)) else none

end Counters

end EventPost
