import FieldBridge.Decimal.Shortest
import FieldBridge.Text.Natural

/-!
# Reading decimals

`nearest` is the float nearest to a decimal, a tie going to the even mantissa.
`float?` reads a text as a float: an optional sign, digits with an optional point and
an optional exponent, or one of the words for an infinity and for what is no number.
-/

namespace FieldBridge.Decimal

def infinity : Float := 1.0 / 0.0

/-- The float nearest to `digits · 10 ^ exponent`. Beyond 800 places the answer is settled
by the place of the leading digit alone. -/
def nearest (d : Exact) : Float :=
  if d.digits = 0 then 0.0
  else
    let place := d.exponent + digitCount d.digits
    if 400 < place then infinity
    else if place < -400 then 0.0
    else if 0 ≤ d.exponent then Float.ofScientific d.digits false d.exponent.toNat
    else Float.ofScientific d.digits true (-d.exponent).toNat

/-- Takes a sign off a text; `true` for a minus. -/
def takeSign : List Char → Bool × List Char
  | '-' :: cs => (true, cs)
  | '+' :: cs => (false, cs)
  | cs => (false, cs)

/-- The exponent part of a number, which has to end the text. -/
def exponent? : List Char → Option Int
  | [] => some 0
  | c :: cs =>
    if c = 'e' ∨ c = 'E' then
      let (negative, ds) := takeSign cs
      if ds.isEmpty || !ds.all Char.isDigit then none
      else
        -- an exponent of many digits is far beyond every float
        let n := Text.ofDigits ((ds.dropWhile (· == '0')).take 12)
        some (if negative then -(n : Int) else n)
    else none

/-- The decimal a text spells out: digits with an optional point, at least one digit, and
an optional exponent. -/
def decimal? (cs : List Char) : Option Exact :=
  let whole := cs.takeWhile Char.isDigit
  let rest := cs.dropWhile Char.isDigit
  let (fraction, tail) := match rest with
    | '.' :: more => (more.takeWhile Char.isDigit, more.dropWhile Char.isDigit)
    | _ => ([], rest)
  if whole.isEmpty && fraction.isEmpty then none
  else (exponent? tail).map fun e => ⟨Text.ofDigits (whole ++ fraction), e - fraction.length⟩

/-- The float a text spells out, in any of the spellings of a number. -/
def float? (s : String) : Option Float :=
  let (negative, cs) := takeSign s.toList
  let magnitude :=
    match (String.ofList (cs.map Char.toLower)) with
    | "inf" | "infinity" => some infinity
    | "nan" => some (0.0 / 0.0)
    | _ => (decimal? cs).map nearest
  magnitude.map fun x => if negative then -x else x

end FieldBridge.Decimal
