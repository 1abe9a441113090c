/-!
# A total order of floats

Floats in the order of their bits read as sign and magnitude: `-0.0` stands below
`0.0`, and what is no number, which has one pattern of bits here, stands above infinity.
-/

namespace FieldBridge.Decimal

def totalKey (x : Float) : Int :=
  let bits := x.toBits.toNat
  if bits < 0x8000000000000000 then bits else -(bits - 0x8000000000000000 : Nat) - 1

def totalLe (x y : Float) : Bool := totalKey x ≤ totalKey y

theorem totalLe_total (x y : Float) : totalLe x y || totalLe y x := by
  simp only [totalLe, Bool.or_eq_true, decide_eq_true_eq]
  omega

theorem totalLe_trans {x y z : Float} (hxy : totalLe x y) (hyz : totalLe y z) : totalLe x z := by
  simp only [totalLe, decide_eq_true_eq] at *
  omega

/-- The sum of floats from left to right, begun at the least zero. -/
def sum (xs : List Float) : Float := xs.foldl (· + ·) (-0.0)

end FieldBridge.Decimal
