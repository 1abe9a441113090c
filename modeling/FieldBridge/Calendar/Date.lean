/-!
# Dates

Dates of the proleptic Gregorian calendar with years from -262143 to 262142, and
their numbers counted in days from 1970-01-01. Both directions go through cycles of
400 years, with years taken to begin in March so that the leap day comes last.
-/

namespace FieldBridge

structure Date where
  year : Int
  month : Nat
  day : Nat
  deriving DecidableEq, Repr

namespace Date

def isLeap (year : Int) : Bool := year % 4 == 0 && (year % 100 != 0 || year % 400 == 0)

def daysIn (year : Int) (month : Nat) : Nat :=
  if month = 2 then (if isLeap year then 29 else 28)
  else if month = 4 ∨ month = 6 ∨ month = 9 ∨ month = 11 then 30 else 31

def leastYear : Int := -262143

def greatestYear : Int := 262142

/-- Whether the day is one of the calendar. -/
def Valid (d : Date) : Prop :=
  leastYear ≤ d.year ∧ d.year ≤ greatestYear ∧ 1 ≤ d.month ∧ d.month ≤ 12 ∧ 1 ≤ d.day ∧ d.day ≤ daysIn d.year d.month

instance (d : Date) : Decidable d.Valid := inferInstanceAs (Decidable (_ ∧ _))

def of? (year : Int) (month day : Nat) : Option Date :=
  let d : Date := ⟨year, month, day⟩
  if d.Valid then some d else none

/-- Days from 1970-01-01. -/
def number (d : Date) : Int :=
  let y := if d.month ≤ 2 then d.year - 1 else d.year
  let cycle := y / 400
  let yearOfCycle := y % 400
  let dayOfYear : Int := (153 * ((d.month + 9) % 12) + 2) / 5 + d.day - 1
  cycle * 146097 + (yearOfCycle * 365 + yearOfCycle / 4 - yearOfCycle / 100 + dayOfYear) - 719468

/-- The date with a number of days from 1970-01-01. -/
def ofNumber (n : Int) : Date :=
  let z := n + 719468
  let cycle := z / 146097
  let dayOfCycle := (z % 146097).toNat
  let yearOfCycle := (dayOfCycle - dayOfCycle / 1460 + dayOfCycle / 36524 - dayOfCycle / 146096) / 365
  let dayOfYear := dayOfCycle - (365 * yearOfCycle + yearOfCycle / 4 - yearOfCycle / 100)
  let shifted := (5 * dayOfYear + 2) / 153
  let month := if shifted < 10 then shifted + 3 else shifted - 9
  { year := yearOfCycle + cycle * 400 + (if month ≤ 2 then 1 else 0)
    month := month
    day := dayOfYear - (153 * shifted + 2) / 5 + 1 }

/-- The date with a number, if its year is one of the calendar. -/
def ofNumber? (n : Int) : Option Date :=
  let d := ofNumber n
  if leastYear ≤ d.year ∧ d.year ≤ greatestYear then some d else none

def addDays? (d : Date) (days : Nat) : Option Date := ofNumber? (d.number + days)

/-! ## Places in the week and in the year -/

/-- Monday is 0. -/
def weekday (d : Date) : Nat := ((d.number + 3) % 7).toNat

/-- The day of the year, from 1. -/
def ordinal (d : Date) : Nat := (d.number - (Date.mk d.year 1 1).number + 1).toNat

def quarter (d : Date) : Nat := (d.month + 2) / 3

/-- Weeks begun by the given day of the week, those before its first occurrence in the year
being week 0. -/
def weekFrom (first : Nat) (d : Date) : Nat := (d.ordinal + 6 - (d.weekday + 7 - first) % 7) / 7

/-- Weeks of a year that begin on Monday and have their Thursday in it. -/
def weeksOf (year : Int) : Nat :=
  let last := (Date.mk year 12 31).weekday
  let first := (Date.mk year 1 1).weekday
  if first = 3 ∨ last = 3 then 53 else 52

/-- The year that holds the Thursday of the date's week, and the week's number in it. -/
def isoWeek (d : Date) : Int × Nat :=
  let week := (d.ordinal + 9 - d.weekday) / 7
  if week = 0 then (d.year - 1, weeksOf (d.year - 1))
  else if weeksOf d.year < week then (d.year + 1, 1)
  else (d.year, week)

def weekdayNames : List String :=
  ["Monday", "Tuesday", "Wednesday", "Thursday", "Friday", "Saturday", "Sunday"]

def monthNames : List String :=
  ["January", "February", "March", "April", "May", "June", "July", "August", "September", "October", "November",
    "December"]

end Date

/-! ## Numbers of a date as text -/

/-- What stands in front of a number that is shorter than its place. -/
inductive Padding where
  | none
  | zero
  | space
  deriving DecidableEq, Repr

namespace Padding

def fill (p : Padding) (width : Nat) (ds : List Char) : List Char :=
  match p with
  | none => ds
  | zero => List.replicate (width - ds.length) '0' ++ ds
  | space => List.replicate (width - ds.length) ' ' ++ ds

def number (p : Padding) (width n : Nat) : String := String.ofList (p.fill width (Nat.toDigits 10 n))

/-- Two digits; a number of three digits keeps its tens in one character, the one that
follows `9` by as much. -/
def two (p : Padding) (n : Nat) : String :=
  let ones := Char.ofNat (48 + n % 10)
  if n / 10 = 0 then
    match p with
    | none => String.singleton ones
    | zero => String.ofList ['0', ones]
    | space => String.ofList [' ', ones]
  else String.ofList [Char.ofNat (48 + n / 10), ones]

/-- A year: four digits, and a sign outside 0 to 9999. -/
def year (p : Padding) (y : Int) : String :=
  if 0 ≤ y ∧ y < 10000 then p.number 4 y.toNat
  else
    let sign := if y < 0 then '-' else '+'
    let ds := Nat.toDigits 10 y.natAbs
    match p with
    | none => String.ofList (sign :: ds)
    | zero => String.ofList (sign :: zero.fill 4 ds)
    | space => String.ofList (space.fill 5 (sign :: ds))

end Padding

/-- Year, month and day, `2024-02-29`. -/
def Date.iso (d : Date) : String :=
  Padding.zero.year d.year ++ "-" ++ Padding.zero.two d.month ++ "-" ++ Padding.zero.two d.day

end FieldBridge
