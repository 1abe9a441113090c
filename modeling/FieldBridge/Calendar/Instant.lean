import FieldBridge.Calendar.Reading
import FieldBridge.Decimal.Places

/-!
# Instants

A point in time in UTC, to the nanosecond. It is written with as many digits after
the seconds as it needs, in groups of three.
-/

namespace FieldBridge

structure Instant where
  /-- days from 1970-01-01 -/
  day : Int
  time : TimeOfDay
  deriving DecidableEq, Repr

namespace Instant

/-- The instant of a local date and time at an offset from UTC in seconds. -/
def ofLocal (date : Date) (time : TimeOfDay) (offset : Int) : Instant :=
  let seconds := date.number * 86400 + time.second - offset
  ⟨seconds / 86400, ⟨(seconds % 86400).toNat, time.nano⟩⟩

/-- Reads a time stamp with an offset, blanks being allowed around its numbers. -/
def parse? (s : String) : Option Instant := do
  let (date, time, offset, rest) ← Reading.looseStamp? s.toList
  if (Reading.skipBlank rest).isEmpty then some (ofLocal date time offset) else none

def date (t : Instant) : Date := Date.ofNumber t.day

/-- The second of the minute, 60 for a leap second. -/
def second (t : Instant) : Nat := t.time.second % 60 + t.time.nano / 1000000000

def nano (t : Instant) : Nat := t.time.nano % 1000000000

def two (n : Nat) : String := Padding.zero.number 2 n

/-- Date and time of day to the second. -/
def head (t : Instant) : String :=
  t.date.iso ++ "T" ++ two (t.time.second / 3600) ++ ":" ++ two (t.time.second / 60 % 60) ++ ":" ++ two t.second

/-- With no, three, six or nine digits after the seconds, as many as are needed. -/
def text (t : Instant) : String :=
  let n := t.nano
  let fraction :=
    if n = 0 then ""
    else if n % 1000000 = 0 then "." ++ Padding.zero.number 3 (n / 1000000)
    else if n % 1000 = 0 then "." ++ Padding.zero.number 6 (n / 1000)
    else "." ++ Padding.zero.number 9 n
  t.head ++ fraction ++ "Z"

/-- With three digits after the seconds, the rest being cut off. -/
def millisText (t : Instant) : String := t.head ++ "." ++ Padding.zero.number 3 (t.nano / 1000000) ++ "Z"

/-- For file names: date and time as digits with a dash between. -/
def stamp (t : Instant) : String :=
  let d := t.date
  Padding.zero.year d.year ++ two d.month ++ two d.day ++ "-" ++ two (t.time.second / 3600) ++
    two (t.time.second / 60 % 60) ++ two t.second

/-- The date of an instant given in milliseconds from 1970-01-01. -/
def dateOfMillis? (ms : Int) : Option Date := Date.ofNumber? (ms / 86400000)

end Instant

end FieldBridge
