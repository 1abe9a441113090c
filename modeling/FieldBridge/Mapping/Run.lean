import FieldBridge.Conversion.Apply
import FieldBridge.Mapping.Validation

/-!
# Mapping a record

The rules are run one after another over a record of values by source id. A rule
stores one value under its destination or reports one issue, and never stops the
others.
-/

namespace FieldBridge

/-- A mapped record in the making. -/
structure MappingRun where
  record : MappedRecord
  cache : Cache
  warnings : List Warning

namespace MappingRun

def start (cache : Cache) : MappingRun := ⟨⟨[], []⟩, cache, []⟩

def report (m : MappingRun) (r : MappingRule) (kind : IssueKind) (message : String) : MappingRun :=
  { m with record := { m.record with issues := m.record.issues ++ [⟨r.destination, r.source, kind, message⟩] } }

def store (m : MappingRun) (destination : String) (value : Json) : MappingRun :=
  { m with record := { m.record with values := Keyed.insert destination value m.record.values } }

end MappingRun

namespace Schema

/-- Runs a rule whose fields are compatible. -/
def convert (s : Schema) (m : MappingRun) (r : MappingRule) (destination : DestinationField)
    (conversion : Option String) (value : Json) : MappingRun :=
  match conversion with
  | none => m.store destination.id value
  | some id =>
    let applied := s.catalog.applyById m.cache id value (r.options.getD .empty)
    { m with cache := applied.cache, warnings := m.warnings ++ applied.warning.toList }.store destination.id
      applied.value

/-- The value of a record under a source id; `null` counts as none. -/
def sourceValue? (record : Keyed Json) (source : String) : Option Json :=
  (Keyed.find? source record).filter (!·.isNull)

/-- Runs one rule: looks both fields up, checks their kinds, and converts the value. -/
def step (s : Schema) (record : Keyed Json) (m : MappingRun) (r : MappingRule) : MappingRun :=
  match s.sources.get? r.source, s.destinations.get? r.destination with
  | none, _ => m.report r .unknownField s!"Unknown source field '{r.source}'"
  | _, none => m.report r .unknownField s!"Unknown destination field '{r.destination}'"
  | some source, some destination =>
    let result := s.catalog.check source.kind destination.kind r.conversion
    if result.status = .incompatible then m.report r .incompatible result.message
    else
      match sourceValue? record r.source with
      | none => m.report r .missingSourceValue s!"No value for source field '{r.source}'"
      | some value => s.convert m r destination result.conversion value

def mapRecord (s : Schema) (rules : List MappingRule) (cache : Cache) (record : Keyed Json) : MappingRun :=
  rules.foldl (s.step record) (.start cache)

end Schema

end FieldBridge
