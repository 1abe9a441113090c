import FieldBridge.Calendar.Date
import FieldBridge.Text.Blank

/-!
# Date patterns

A pattern is a text in which a percent sign and a letter stand for a part of a date.
Between the two a padding may be chosen: `-` for none, `0` for zeros, `_` for blanks;
only parts that are a single number take it. Letters for parts of a day's time are
understood, but a date alone has no such part.
-/

namespace FieldBridge

/-- The numbers of a date that a pattern can show. -/
inductive DateNumber where
  | year | century | yearOfCentury | weekYear | weekYearOfCentury | quarter | month | day | ordinal
  | weekFromSunday | weekFromMonday | isoWeek | weekdayFromSunday | weekdayFromMonday
  deriving DecidableEq, Repr

/-- A piece of a pattern. -/
inductive PatternPart where
  | literal (text : String)
  | number (n : DateNumber) (padding : Padding)
  | monthName (short : Bool)
  | weekdayName (short : Bool)
  /-- a number that belongs to a time of day -/
  | timeNumber
  /-- any other thing that belongs to a time of day or to its zone -/
  | timeText
  deriving DecidableEq, Repr

abbrev Pattern := List PatternPart

namespace Pattern

open PatternPart

/-- The parts a letter stands for. -/
def letter? (c : Char) : Option (List PatternPart) :=
  match c with
  | 'A' => some [weekdayName false]
  | 'B' => some [monthName false]
  | 'C' => some [number .century .zero]
  | 'D' | 'x' =>
    some [number .month .zero, literal "/", number .day .zero, literal "/", number .yearOfCentury .zero]
  | 'F' => some [number .year .zero, literal "-", number .month .zero, literal "-", number .day .zero]
  | 'G' => some [number .weekYear .zero]
  | 'U' => some [number .weekFromSunday .zero]
  | 'V' => some [number .isoWeek .zero]
  | 'W' => some [number .weekFromMonday .zero]
  | 'Y' => some [number .year .zero]
  | 'a' => some [weekdayName true]
  | 'b' | 'h' => some [monthName true]
  | 'd' => some [number .day .zero]
  | 'e' => some [number .day .space]
  | 'g' => some [number .weekYearOfCentury .zero]
  | 'j' => some [number .ordinal .zero]
  | 'm' => some [number .month .zero]
  | 'n' => some [literal "\n"]
  | 'q' => some [number .quarter .none]
  | 't' => some [literal "\t"]
  | 'u' => some [number .weekdayFromMonday .none]
  | 'v' => some [number .day .space, literal "-", monthName true, literal "-", number .year .zero]
  | 'w' => some [number .weekdayFromSunday .none]
  | 'y' => some [number .yearOfCentury .zero]
  | '%' => some [literal "%"]
  | 'H' | 'I' | 'M' | 'S' | 'f' | 'k' | 'l' | 's' => some [timeNumber]
  | 'P' | 'p' | 'Z' | 'z' | '+' => some [timeText]
  | 'R' | 'T' | 'X' | 'c' | 'r' => some [timeText, timeText]
  | _ => none

/-- With a chosen padding, which only a single number takes. -/
def padded? (p : Padding) : List PatternPart → Option (List PatternPart)
  | [number n _] => some [number n p]
  | [timeNumber] => some [timeNumber]
  | _ => none

/-- The parts after a percent sign and its padding, and the rest of the pattern. -/
def named? : List Char → Option (List PatternPart × List Char)
  | ':' :: ':' :: ':' :: 'z' :: rest => some ([timeText], rest)
  | ':' :: ':' :: 'z' :: rest => some ([timeText], rest)
  | ':' :: 'z' :: rest => some ([timeText], rest)
  | '.' :: 'f' :: rest => some ([timeText], rest)
  | '.' :: d :: 'f' :: rest => if d = '3' ∨ d = '6' ∨ d = '9' then some ([timeText], rest) else none
  | c :: 'f' :: rest =>
    if c = '3' ∨ c = '6' ∨ c = '9' then some ([timeText], rest) else (letter? c).map fun p => (p, 'f' :: rest)
  | c :: rest => (letter? c).map fun p => (p, rest)
  | [] => none

/-- The parts after a percent sign, and the rest of the pattern. -/
def directive? : List Char → Option (List PatternPart × List Char)
  | '-' :: rest => do let (ps, rest) ← named? rest; some (← padded? .none ps, rest)
  | '0' :: rest => do let (ps, rest) ← named? rest; some (← padded? .zero ps, rest)
  | '_' :: rest => do let (ps, rest) ← named? rest; some (← padded? .space ps, rest)
  | '#' :: 'z' :: rest => some ([timeText], rest)
  | rest => named? rest

def partsFrom : Nat → List Char → Option Pattern
  | _, [] => some []
  | 0, _ :: _ => none
  | fuel + 1, '%' :: rest => do
    let (parts, rest) ← directive? rest
    some (parts ++ (← partsFrom fuel rest))
  | fuel + 1, c :: rest => do some (literal (String.singleton c) :: (← partsFrom fuel rest))

/-- A pattern is refused when a percent sign does not begin a known part. -/
def parse? (s : String) : Option Pattern := partsFrom s.toList.length s.toList

end Pattern

def DateNumber.text (p : Padding) (d : Date) : DateNumber → String
  | year => p.year d.year
  | century => p.two ((d.year / 100) % 256).toNat
  | yearOfCentury => p.two (d.year % 100).toNat
  | weekYear => p.year d.isoWeek.1
  | weekYearOfCentury => p.two (d.isoWeek.1 % 100).toNat
  | quarter => toString d.quarter
  | month => p.two d.month
  | day => p.two d.day
  | ordinal => p.number 3 d.ordinal
  | weekFromSunday => p.two (d.weekFrom 6)
  | weekFromMonday => p.two (d.weekFrom 0)
  | isoWeek => p.two d.isoWeek.2
  | weekdayFromSunday => toString ((d.weekday + 1) % 7)
  | weekdayFromMonday => toString (d.weekday + 1)

def PatternPart.text? (d : Date) : PatternPart → Option String
  | literal s => some s
  | number n p => some (n.text p d)
  | monthName short =>
    let name := Date.monthNames.getD (d.month - 1) ""
    some (if short then String.ofList (name.toList.take 3) else name)
  | weekdayName short =>
    let name := Date.weekdayNames.getD d.weekday ""
    some (if short then String.ofList (name.toList.take 3) else name)
  | timeNumber => none
  | timeText => none

/-- A date in the form of a pattern; nothing when the pattern asks for a time of day. -/
def Pattern.render? (p : Pattern) (d : Date) : Option String :=
  (p.mapM (PatternPart.text? d)).map String.join

end FieldBridge
