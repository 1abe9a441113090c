import FieldBridge.Decimal.Nearest
import FieldBridge.Document.Basic
import FieldBridge.Json.Parser

/-!
# Plain scalars of YAML

What a word without quotes stands for: `null`, a truth value, a whole number in one of
four bases, a float, or itself.
-/

namespace FieldBridge.Yaml

def digitIn? (base : Nat) (c : Char) : Option Nat := (Json.hexValue? c).filter (· < base)

def inBase? (base : Nat) (ds : List Char) : Option Nat :=
  if ds.isEmpty then none else (ds.mapM (digitIn? base)).map (·.foldl (fun n d => base * n + d) 0)

/-- Digits that start with a zero but are not the number zero; they are a text. -/
def hasIdleZero (cs : List Char) : Bool :=
  let ds := (Decimal.takeSign cs).2
  1 < ds.length && ds.head? == some '0' && ds.all Char.isDigit

def magnitude? : List Char → Option Nat
  | '0' :: 'x' :: ds => inBase? 16 ds
  | '0' :: 'o' :: ds => inBase? 8 ds
  | '0' :: 'b' :: ds => inBase? 2 ds
  | ds => if hasIdleZero ds then none else inBase? 10 ds

def integer? (cs : List Char) : Option Int :=
  let (negative, ds) := Decimal.takeSign cs
  (magnitude? ds).map fun n => if negative then -(n : Int) else n

def float? (s : String) : Option Scalar :=
  if s ∈ [".inf", ".Inf", ".INF", "+.inf", "+.Inf", "+.INF", "-.inf", "-.Inf", "-.INF", ".nan", ".NaN", ".NAN"] then
    some .notFinite
  else if hasIdleZero s.toList then none
  else (Decimal.float? s).bind fun x => (Number.ofFloat? x).map .number

/-- What a plain scalar stands for. -/
def resolve (s : String) : Scalar :=
  if s ∈ ["", "null", "Null", "NULL", "~"] then .null
  else if s ∈ ["true", "True", "TRUE"] then .bool true
  else if s ∈ ["false", "False", "FALSE"] then .bool false
  else
    match integer? s.toList with
    | some n =>
      match Number.ofInt? n with
      | some i => .number i
      | none =>
        if -0x80000000000000000000000000000000 ≤ n ∧ n < 0x100000000000000000000000000000000 then .tooLarge
        else (float? s).getD (.text s)
    | none => (float? s).getD (.text s)

/-- Whether a plain word would stand for something other than itself. -/
def isAmbiguous (s : String) : Bool :=
  hasIdleZero s.toList || match resolve s with
    | .text _ => false
    | _ => true

end FieldBridge.Yaml
