import FieldBridge.Conversion.Catalog
import FieldBridge.Field.Table

/-!
# Compatibility

How a source kind relates to a destination kind: its values fit as they are, need a
conversion that a catalog holds, or cannot be used. There is always an answer.
-/

namespace FieldBridge

inductive Status where
  | compatible
  | requiresConversion
  | incompatible
  deriving DecidableEq, Repr

namespace Status

def all : List Status := [compatible, requiresConversion, incompatible]

def name : Status → String
  | compatible => "compatible"
  | requiresConversion => "requires_transformation"
  | incompatible => "incompatible"

end Status

/-- A status, the conversion to use where one is required, and a text for people. -/
structure Compatibility where
  status : Status
  conversion : Option String := none
  message : String
  deriving DecidableEq, Repr

namespace Compatibility

def direct : Compatibility := { status := .compatible, message := "Fields are directly compatible" }

def through (t : Conversion) : Compatibility :=
  { status := .requiresConversion, conversion := some t.id
    message := s!"Requires transformation from {t.source.name} to {t.target.name} ({t.name})" }

def refused (message : String) : Compatibility := { status := .incompatible, message := message }

def isMappable (c : Compatibility) : Bool := c.status != .incompatible

end Compatibility

namespace Catalog

/-- How values of kind `source` come into a field of kind `destination`. -/
def classify (c : Catalog) (destination source : Kind) : Compatibility :=
  if destination.accepts source then .direct
  else
    match c.find? source destination with
    | some t => .through t
    | none => .refused s!"{source.label} cannot be mapped to {destination.label}"

/-- As `classify`, or with a conversion that was chosen by its id, which has to be one of
these kinds. -/
def check (c : Catalog) (source destination : Kind) : Option String → Compatibility
  | none => c.classify destination source
  | some id =>
    match c.get? id with
    | none => .refused s!"Unknown transformation '{id}'"
    | some t =>
      if t.source = source ∧ t.target = destination then .through t
      else
        .refused (s!"Transformation '{id}' converts {t.source.name} to {t.target.name}, " ++
          s!"not {source.name} to {destination.name}")

/-- Every source kind with its relation to a destination kind. -/
def compatibleKinds (c : Catalog) (destination : Kind) : List (Kind × Compatibility) :=
  Kind.all.map fun source => (source, c.classify destination source)

/-- Whether the catalog holds a conversion from one kind to another. -/
def canConvert (c : Catalog) (source target : Kind) : Bool := !(c.available source target).isEmpty

end Catalog

/-- Source fields by their relation to a destination field. -/
structure Recommended where
  direct : List SourceField
  converted : List SourceField
  incompatible : List SourceField

def Catalog.recommend (c : Catalog) (sources : List SourceField) (destination : Kind) : Recommended :=
  let withStatus (s : Status) := sources.filter fun f => (c.classify destination f.kind).status == s
  ⟨withStatus .compatible, withStatus .requiresConversion, withStatus .incompatible⟩

end FieldBridge
