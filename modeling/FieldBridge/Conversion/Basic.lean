import FieldBridge.Conversion.Options
import FieldBridge.Field.Kind

/-!
# Conversions

A conversion turns values of one kind into values of another. It is a pure function
of a value and options, with what is said about it to people.
-/

namespace FieldBridge

inductive Level where
  | low
  | medium
  | high
  deriving DecidableEq, Repr

namespace Level

def all : List Level := [low, medium, high]

def name : Level → String
  | low => "low"
  | medium => "medium"
  | high => "high"

def ofName? (name : String) : Option Level := all.find? (·.name == name)

/-- The weight of a complexity in a ranking. -/
def weight : Level → Nat
  | low => 1
  | medium => 2
  | high => 3

end Level

/-- A value and what it is converted into. -/
structure Example where
  source : Json
  target : Json
  deriving DecidableEq

structure Conversion where
  id : String
  source : Kind
  target : Kind
  name : String
  description : String
  impact : Level
  complexity : Level
  /-- whether runs over all conversions include this one -/
  benchmarkable : Bool
  run : Json → Options → Except Failure Json
  sample : Example

end FieldBridge
