import FieldBridge.Decimal.Binary

/-!
# Fixed decimal places

A float written with a given number of decimal places. The exact binary value is
rounded to the nearest decimal, and a value exactly between two of them goes to the
even one.
-/

namespace FieldBridge.Decimal

/-- The quotient rounded to the nearest whole number, a tie going to the even neighbour. -/
def roundDiv (n d : Nat) : Nat :=
  let q := n / d
  let twice := 2 * (n % d)
  if twice < d then q else if d < twice then q + 1 else if q % 2 = 0 then q else q + 1

/-- The magnitude times `10 ^ places`, rounded. -/
def Binary.scaled (b : Binary) (places : Nat) : Nat :=
  roundDiv (b.mantissa * Nat.pow 10 places * Nat.pow 2 b.exponent.toNat) (Nat.pow 2 (-b.exponent).toNat)

def padLeft (width : Nat) (cs : List Char) : List Char := List.replicate (width - cs.length) '0' ++ cs

/-- A whole number of units of `10 ^ -places`. -/
def placed (places n : Nat) : String :=
  let ds := padLeft (places + 1) (Nat.toDigits 10 n)
  let whole := String.ofList (ds.take (ds.length - places))
  if places = 0 then whole else whole ++ "." ++ String.ofList (ds.drop (ds.length - places))

def fixed (places : Nat) (x : Float) : String :=
  if x.isNaN then "NaN"
  else
    let b := Binary.ofFloat x
    let sign := if b.negative then "-" else ""
    if x.isFinite then sign ++ placed places (b.scaled places) else sign ++ "inf"

end FieldBridge.Decimal
