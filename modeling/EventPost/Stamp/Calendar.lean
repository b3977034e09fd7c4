import EventPost.Numeral.Decimal

/-!
Instants in milliseconds since the start of 1970, and their dates in the proleptic Gregorian
calendar. A year outside 0 to 9999 is written with its sign. The calendar covers the years from
-262143 to 262142.
-/

namespace EventPost.Calendar

open Numeral (padded)

def earliest : Int := -8334601228800000

def latest : Int := 8210266876799999

abbrev Representable (ms : Int) : Prop := earliest ≤ ms ∧ ms ≤ latest

structure Date where
  year : Int
  month : Nat
  day : Nat
  deriving DecidableEq, Repr

def daysToMarch (year : Int) : Int := 365 * year + year / 4 - year / 100 + year / 400

def daysToMonth (k : Nat) : Nat := (153 * k + 2) / 5

def epochDay : Int := 719468

/-- The day of a date, counted from the start of 1970. Years begin in March here, so that the leap
day is the last of its year. -/
def Date.toDay (d : Date) : Int :=
  let year := if d.month ≤ 2 then d.year - 1 else d.year
  let k := (d.month + 9) % 12
  daysToMarch year + daysToMonth k + d.day - 1 - epochDay

def Date.ofDay (day : Int) : Date :=
  let z := day + epochDay
  let era := z / 146097
  let rest := (z % 146097).toNat
  let yearOfEra := (rest - rest / 1460 + rest / 36524 - rest / 146096) / 365
  let dayOfYear := rest - (365 * yearOfEra + yearOfEra / 4 - yearOfEra / 100)
  let k := (5 * dayOfYear + 2) / 153
  let month := if k < 10 then k + 3 else k - 9
  let year := (yearOfEra : Int) + era * 400
  ⟨if month ≤ 2 then year + 1 else year, month, dayOfYear - daysToMonth k + 1⟩

structure Instant where
  date : Date
  hour : Nat
  minute : Nat
  second : Nat
  milli : Nat
  deriving DecidableEq, Repr

def msPerDay : Int := 86400000

def Instant.ofMs (ms : Int) : Instant :=
  let t := (ms % msPerDay).toNat
  ⟨Date.ofDay (ms / msPerDay), t / 3600000, t / 60000 % 60, t / 1000 % 60, t % 1000⟩

def Instant.toMs (t : Instant) : Int :=
  t.date.toDay * msPerDay + (((t.hour * 60 + t.minute) * 60 + t.second) * 1000 + t.milli : Nat)

def writeYear (year : Int) : List Char :=
  if year < 0 then '-' :: padded 4 year.natAbs
  else if 9999 < year then '+' :: padded 4 year.natAbs
  else padded 4 year.natAbs

def Instant.write (t : Instant) : List Char :=
  writeYear t.date.year ++ '-' :: padded 2 t.date.month ++ '-' :: padded 2 t.date.day
    ++ 'T' :: padded 2 t.hour ++ ':' :: padded 2 t.minute ++ ':' :: padded 2 t.second
    ++ '.' :: padded 3 t.milli ++ ['Z']

def timestamp? (ms : Int) : Option String :=
  if Representable ms then some (String.ofList (Instant.ofMs ms).write) else none

end EventPost.Calendar
