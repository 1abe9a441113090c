import FieldBridge.Calendar.Date
import FieldBridge.Decimal.Nearest
import FieldBridge.Text.Blank

/-!
# Reading dates and times

Dates are read as year, month and day with a separator, or day, month and year;
numbers may have blanks in front. Times of day have hours, minutes, seconds and
an optional fraction, and a time zone is an offset from UTC.
-/

namespace FieldBridge

/-- A time of day; the second 60 is kept as 59 and a fraction of a second or more. -/
structure TimeOfDay where
  second : Nat
  nano : Nat
  deriving DecidableEq, Repr

namespace Reading

/-- A number of `least` to `most` digits, and the text after it. -/
def digits? (least most : Nat) (cs : List Char) : Option (Nat × List Char) :=
  let ds := (cs.take most).takeWhile Char.isDigit
  if ds.length < least then none else some (Text.ofDigits ds, cs.drop ds.length)

def char? (c : Char) : List Char → Option (List Char)
  | [] => none
  | d :: rest => if d = c then some rest else none

def skipBlank (cs : List Char) : List Char := cs.dropWhile Text.isBlank

/-- A number with blanks in front. -/
def spaced? (most : Nat) (cs : List Char) : Option (Nat × List Char) := digits? 1 most (skipBlank cs)

/-- A year with blanks in front: at most four digits, or a sign and any number of them. -/
def year? (cs : List Char) : Option (Int × List Char) :=
  match skipBlank cs with
  | '-' :: rest => (digits? 1 rest.length rest).map fun (n, t) => (-(n : Int), t)
  | '+' :: rest => (digits? 1 rest.length rest).map fun (n, t) => ((n : Int), t)
  | rest => (digits? 1 4 rest).map fun (n, t) => ((n : Int), t)

/-- Year, month and day with dashes, and the text after them. -/
def yearFirst? (cs : List Char) : Option (Date × List Char) := do
  let (y, cs) ← year? cs
  let (m, cs) ← spaced? 2 (← char? '-' cs)
  let (d, cs) ← spaced? 2 (← char? '-' cs)
  some (← Date.of? y m d, cs)

/-- Day, month and year with a separator, and the text after them. -/
def dayFirst? (separator : Char) (cs : List Char) : Option (Date × List Char) := do
  let (d, cs) ← spaced? 2 cs
  let (m, cs) ← spaced? 2 (← char? separator cs)
  let (y, cs) ← year? (← char? separator cs)
  some (← Date.of? y m d, cs)

def time? (hour minute second nano : Nat) : Option TimeOfDay :=
  if hour < 24 ∧ minute < 60 ∧ second ≤ 60 then
    let base := hour * 3600 + minute * 60
    if second = 60 then some ⟨base + 59, nano + 1000000000⟩ else some ⟨base + second, nano⟩
  else none

/-- A fraction of a second, if there is one: digits beyond the ninth are passed over. -/
def fraction? : List Char → Option (Nat × List Char)
  | '.' :: rest =>
    let ds := rest.takeWhile Char.isDigit
    if ds.isEmpty then none
    else
      let kept := ds.take 9
      some (Text.ofDigits kept * Nat.pow 10 (9 - kept.length), rest.dropWhile Char.isDigit)
  | cs => some (0, cs)

/-- An offset from UTC in seconds, `separator` taking off what stands between its two numbers. -/
def offset? (separator : List Char → Option (List Char)) : List Char → Option (Int × List Char)
  | 'Z' :: rest => some (0, rest)
  | 'z' :: rest => some (0, rest)
  | [] => none
  | c :: rest => do
    let negative ← if c = '+' then some false else if c = '-' ∨ c = '\u2212' then some true else none
    let (h, rest) ← digits? 2 2 rest
    let (m, rest) ← digits? 2 2 (← separator rest)
    if m < 60 ∧ h < 24 then
      let seconds : Int := h * 3600 + m * 60
      some (if negative then -seconds else seconds, rest)
    else none

def isDateSeparator (c : Char) : Bool := c == 'T' || c == 't' || c == ' '

/-- A time stamp in which every number has its full number of digits: date, time of day,
offset from UTC, and the text after it. -/
def strictStamp? (cs : List Char) : Option (Date × TimeOfDay × Int × List Char) := do
  let (y, cs) ← digits? 4 4 cs
  let (m, cs) ← digits? 2 2 (← char? '-' cs)
  let (d, cs) ← digits? 2 2 (← char? '-' cs)
  match cs with
  | [] => none
  | c :: cs =>
    if !isDateSeparator c then none
    else
      let (h, cs) ← digits? 2 2 cs
      let (mi, cs) ← digits? 2 2 (← char? ':' cs)
      let (s, cs) ← digits? 2 2 (← char? ':' cs)
      let (nano, cs) ← fraction? cs
      let (offset, cs) ← offset? (char? ':') cs
      some (← Date.of? y m d, ← time? h mi s nano, offset, cs)

/-- A time stamp with blanks allowed around its numbers. -/
def looseStamp? (cs : List Char) : Option (Date × TimeOfDay × Int × List Char) := do
  let (y, cs) ← year? cs
  let (m, cs) ← spaced? 2 (← char? '-' (skipBlank cs))
  let (d, cs) ← spaced? 2 (← char? '-' (skipBlank cs))
  match cs with
  | [] => none
  | c :: cs =>
    if !isDateSeparator c then none
    else
      let (h, cs) ← spaced? 2 cs
      let (mi, cs) ← spaced? 2 (← char? ':' (skipBlank cs))
      let (s, cs) ← spaced? 2 (← char? ':' (skipBlank cs))
      let (nano, cs) ← fraction? cs
      let cs := skipBlank cs
      let (offset, cs) ←
        if (cs.take 3).map Char.toLower == ['u', 't', 'c'] then some (0, cs.drop 3)
        else offset? (fun cs => some (cs.dropWhile fun c => c == ':' || Text.isBlank c)) cs
      some (← Date.of? y m d, ← time? h mi s nano, offset, cs)

/-- Date and time of day without a zone. -/
def local? (cs : List Char) : Option (Date × List Char) := do
  let (date, cs) ← yearFirst? cs
  let (h, cs) ← spaced? 2 (← char? 'T' cs)
  let (mi, cs) ← spaced? 2 (← char? ':' cs)
  let (s, cs) ← spaced? 2 (← char? ':' cs)
  let (nano, cs) ← fraction? cs
  let _ ← time? h mi s nano
  some (date, cs)

/-- What was read, if nothing is left after it. -/
def whole? {α : Type} : Option (α × List Char) → Option α
  | some (a, []) => some a
  | _ => none

end Reading

open Reading in
/-- A date in free text: year first, a time stamp, a local date and time, or day first with
slashes or dashes. The first form that fits the whole text counts. -/
def Date.parse? (s : String) : Option Date :=
  let cs := Text.trimmed s.toList
  (whole? (yearFirst? cs)).orElse fun _ =>
    (whole? ((strictStamp? cs).map fun (d, _, _, rest) => (d, rest))).orElse fun _ =>
      (whole? (local? cs)).orElse fun _ =>
        (whole? (dayFirst? '/' cs)).orElse fun _ => whole? (dayFirst? '-' cs)

end FieldBridge
