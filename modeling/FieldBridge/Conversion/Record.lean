import FieldBridge.Conversion.Basic
import FieldBridge.Field.Record

/-!
# Conversions in documents
-/

namespace FieldBridge

open Record

instance : Record Level := ofNames Level.all Level.name

instance : Record Options where
  encode := Options.toJson
  decode?
    | .object members => (Document.object members).toJson?.map fun v => .ofJson v.normalize
    | _ => none

instance : Record Example where
  encode e := .object (member "source" e.source ++ member "target" e.target)
  decode? d := do
    match ← d.slots? [slot "source", slot "target"] with
    | [source, target] => some ⟨← needed source, ← needed target⟩
    | _ => none

/-- What is told about a conversion; its function has no data form. -/
def Conversion.encode (t : Conversion) : Json :=
  .object (member "id" t.id ++ member "sourceKind" t.source ++ member "targetKind" t.target ++ member "name" t.name ++
    member "description" t.description ++ member "performanceImpact" t.impact ++
    member "estimatedComplexity" t.complexity ++ member "benchmarkable" t.benchmarkable ++ member "example" t.sample)

end FieldBridge
