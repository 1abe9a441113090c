import FieldBridge.Compatibility
import FieldBridge.Mapping.Basic

/-!
# Validation of mappings

Each rule is checked on its own: both fields have to exist, and the kinds have to be
compatible, directly or through a conversion.
-/

namespace FieldBridge

inductive Outcome where
  | checked (result : Compatibility)
  | unknownSource
  | unknownDestination
  deriving DecidableEq, Repr

structure Validation where
  source : String
  destination : String
  outcome : Outcome
  deriving DecidableEq, Repr

def Validation.isValid (v : Validation) : Bool :=
  match v.outcome with
  | .checked result => result.isMappable
  | _ => false

/-- What rules are checked against and run with. -/
structure Schema where
  catalog : Catalog
  sources : FieldTable SourceField
  destinations : FieldTable DestinationField

namespace Schema

def outcome (s : Schema) (r : MappingRule) : Outcome :=
  match s.sources.get? r.source, s.destinations.get? r.destination with
  | none, _ => .unknownSource
  | _, none => .unknownDestination
  | some source, some destination => .checked (s.catalog.check source.kind destination.kind r.conversion)

def validate (s : Schema) (rules : List MappingRule) : List Validation :=
  rules.map fun r => ⟨r.source, r.destination, s.outcome r⟩

end Schema

/-- The required destination fields that no rule feeds. -/
def missingRequired (destinations : FieldTable DestinationField) (rules : List MappingRule) : List DestinationField :=
  destinations.fields.filter fun d => d.required && !rules.any fun r => r.destination == d.id

end FieldBridge
