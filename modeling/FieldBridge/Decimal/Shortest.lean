import FieldBridge.Decimal.Binary

/-!
# Shortest decimals

The decimal with the fewest digits that reads back as a given float, and of those
the nearest. The reals that round to a float form an interval around it; for each
number of digits the two neighbours of the float on that decimal grid are tested in
exact arithmetic.
-/

namespace FieldBridge.Decimal

/-- `digits · 10 ^ exponent`. -/
structure Exact where
  digits : Nat
  exponent : Int
  deriving DecidableEq, Repr

/-- A float's magnitude and the ends of its rounding interval, over one denominator. -/
structure Interval where
  value : Nat
  low : Nat
  high : Nat
  denominator : Nat
  /-- whether the ends round to the float too -/
  closed : Bool

/-- The interval of the reals that round to `mantissa · 2 ^ exponent`. The gap below a
power of two is half the gap above. -/
def Interval.of (b : Binary) : Interval :=
  let scale := Nat.pow 2 (b.exponent - 2).toNat
  let below := if b.mantissa = 0x10000000000000 ∧ -1074 < b.exponent then 1 else 2
  { value := 4 * b.mantissa * scale
    low := (4 * b.mantissa - below) * scale
    high := (4 * b.mantissa + 2) * scale
    denominator := Nat.pow 2 (2 - b.exponent).toNat
    closed := b.mantissa % 2 == 0 }

/-- Whether `n · 10 ^ e` rounds to the float. -/
def Interval.holds (i : Interval) (d : Exact) : Bool :=
  let n := d.digits * Nat.pow 10 d.exponent.toNat * i.denominator
  let unit := Nat.pow 10 (-d.exponent).toNat
  if i.closed then i.low * unit ≤ n && n ≤ i.high * unit
  else i.low * unit < n && n < i.high * unit

def digitCount (n : Nat) : Nat := (Nat.toDigits 10 n).length

/-- The least `j` from `j` on with `10 ^ j · value` not below the denominator. -/
def leadingPlace (value denominator : Nat) : Nat → Nat → Nat
  | 0, j => j
  | fuel + 1, j => if denominator ≤ value then j else leadingPlace (value * 10) denominator fuel (j + 1)

/-- The decimal exponent of the leading digit. -/
def Interval.leading (i : Interval) : Int :=
  if i.denominator ≤ i.value then (digitCount (i.value / i.denominator) : Int) - 1
  else -(leadingPlace i.value i.denominator 400 0 : Int)

/-- The neighbour below and the neighbour above on the grid of step `10 ^ e`. -/
def Interval.neighbours (i : Interval) (e : Int) : Exact × Exact :=
  let below := i.value * Nat.pow 10 (-e).toNat / (i.denominator * Nat.pow 10 e.toNat)
  (⟨below, e⟩, ⟨below + 1, e⟩)

/-- Which of two neighbours is nearer, an exact tie going to the even one. -/
def Interval.nearer (i : Interval) (low high : Exact) : Exact :=
  let unit := i.denominator * Nat.pow 10 low.exponent.toNat
  let offset := 2 * (i.value * Nat.pow 10 (-low.exponent).toNat - low.digits * unit)
  if offset < unit then low else if unit < offset then high
  else if low.digits % 2 = 0 then low else high

/-- The first grid with a neighbour inside the interval, from `n` digits on. -/
def Interval.search (i : Interval) (leading : Int) : Nat → Nat → Exact
  | 0, n => (i.neighbours (leading - n)).1
  | fuel + 1, n =>
    let (low, high) := i.neighbours (leading - n)
    match i.holds low, i.holds high with
    | true, true => i.nearer low high
    | true, false => low
    | false, true => high
    | false, false => i.search leading fuel (n + 1)

/-- Without zeros at the end. -/
def Exact.stripped (d : Exact) : Exact :=
  go (digitCount d.digits) d
where
  go : Nat → Exact → Exact
    | 0, d => d
    | k + 1, d => if d.digits ≠ 0 ∧ d.digits % 10 = 0 then go k ⟨d.digits / 10, d.exponent + 1⟩ else d

/-- The shortest decimal that reads back as the magnitude of a finite float other than zero. -/
def shortest (b : Binary) : Exact :=
  let i := Interval.of b
  (i.search i.leading 17 0).stripped

/-- How a float is written: which exponents of the leading digit are written positionally,
and whether the exponent of the other notation carries a plus sign. -/
structure FloatStyle where
  leastPositional : Int
  mostPositional : Int
  plus : Bool

/-- Positional or scientific text of a decimal whose digits are known. -/
def FloatStyle.place (style : FloatStyle) (d : Exact) : String :=
  let ds := Nat.toDigits 10 d.digits
  let e := d.exponent + ds.length - 1
  if style.leastPositional ≤ e ∧ e ≤ style.mostPositional then
    if e < 0 then "0." ++ String.ofList (List.replicate (-e - 1).toNat '0' ++ ds)
    else
      let whole := ds.take (e.toNat + 1)
      let rest := ds.drop (e.toNat + 1)
      String.ofList (whole ++ List.replicate (e.toNat + 1 - whole.length) '0') ++ "." ++
        (if rest.isEmpty then "0" else String.ofList rest)
  else
    let fraction := if ds.length ≤ 1 then "" else "." ++ String.ofList (ds.drop 1)
    let sign := if e < 0 then "-" else if style.plus then "+" else ""
    String.ofList (ds.take 1) ++ fraction ++ "e" ++ sign ++ toString e.natAbs

/-- The text of a finite float. -/
def FloatStyle.text (style : FloatStyle) (x : Float) : String :=
  let b := Binary.ofFloat x
  let sign := if b.negative then "-" else ""
  if b.mantissa = 0 then sign ++ "0.0" else sign ++ style.place (shortest b)

end FieldBridge.Decimal
