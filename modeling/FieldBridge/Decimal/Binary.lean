/-!
# Floats as exact binary fractions

A finite float is `± mantissa · 2 ^ exponent`. Whole parts and roundings to whole
numbers are taken in exact arithmetic on this form.
-/

namespace FieldBridge.Decimal

structure Binary where
  negative : Bool
  mantissa : Nat
  exponent : Int
  deriving DecidableEq, Repr

namespace Binary

/-- The exact value of a finite float. -/
def ofFloat (x : Float) : Binary :=
  let bits := x.toBits.toNat
  let fraction := bits % 0x10000000000000
  let biased := bits / 0x10000000000000 % 0x800
  { negative := decide (0x8000000000000000 ≤ bits)
    mantissa := if biased = 0 then fraction else fraction + 0x10000000000000
    exponent := (max biased 1 : Nat) - 1075 }

/-- The whole part of the magnitude. -/
def whole (b : Binary) : Nat :=
  if 0 ≤ b.exponent then b.mantissa * Nat.pow 2 b.exponent.toNat else b.mantissa / Nat.pow 2 (-b.exponent).toNat

/-- Whether nothing is left after the whole part. -/
def isWhole (b : Binary) : Bool :=
  decide (0 ≤ b.exponent) || b.mantissa % Nat.pow 2 (-b.exponent).toNat == 0

/-- The magnitude rounded to a whole number, halves going up. -/
def rounded (b : Binary) : Nat :=
  if 0 ≤ b.exponent then b.whole
  else (2 * b.mantissa + Nat.pow 2 (-b.exponent).toNat) / Nat.pow 2 ((-b.exponent).toNat + 1)

end Binary

/-- The whole part of a finite float, cut toward zero. -/
def truncate (x : Float) : Int :=
  let b := Binary.ofFloat x
  if b.negative then -(b.whole : Int) else b.whole

def isWhole (x : Float) : Bool := x.isFinite && (Binary.ofFloat x).isWhole

/-- The whole number at or below a float that is not negative, kept within 64 bits; a float
below zero or that is no number gives 0. -/
def floor64 (x : Float) : Nat :=
  if x.isNaN || decide (x ≤ 0.0) then 0
  else if x.isFinite then min (Binary.ofFloat x).whole (0x10000000000000000 - 1) else 0x10000000000000000 - 1

/-- The nearest whole number as a float, halves going away from zero; the sign is kept. -/
def round (x : Float) : Float :=
  if x.isFinite then
    let b := Binary.ofFloat x
    let r := Float.ofNat b.rounded
    if b.negative then -r else r
  else x

/-- Whole numbers outside the range of 64-bit signed integers go to its ends. -/
def clampInt64 (n : Int) : Int := max (-0x8000000000000000) (min n (0x8000000000000000 - 1))

end FieldBridge.Decimal
