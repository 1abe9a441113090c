import FieldBridge.CommandLine.Command
import FieldBridge.CommandLine.Desk
import FieldBridge.Conversion.Builtin
import FieldBridge.Field.Record
import FieldBridge.Mapping.Run

/-!
# Mappings on the command line

A mapping configuration is checked against the fields of two schemas, or used to map a
record.
-/

namespace FieldBridge.CommandLine

/-- A table of fields whose ids must differ. -/
def tableOf {α : Type} [Identified α] (set : String) (fields : List α) : Work (FieldTable α) :=
  orFail (fun id => .engine (.duplicateField id set)) (FieldTable.ofList fields)

/-- A mapping and the schema it is for. Without a file the destinations are the fields of a case study. -/
def loadSchema (m : MappingFiles) : Work (MappingConfiguration × Schema) := do
  let files := (← get).files
  let c ← orFail .mapping (loadMapping files m.mapping)
  let sources ← orFail (.sources c.database) (files.record (List SourceField) m.sources)
  let destinations ← match m.destinations with
    | some path => orFail .destinations (files.record (List DestinationField) path)
    | none => pure caseStudySchema
  pure (c, ⟨.builtin, ← tableOf "source" sources, ← tableOf "destination" destinations⟩)

def validate (s : Style) (m : MappingFiles) : Work Unit := do
  let (c, schema) ← loadSchema m
  s.info s!"Validating {c.name} ({c.id})"
  let found := schema.validate c.rules
  Style.block (s.format.validations found)
  (missingRequired schema.destinations c.rules).forM fun field =>
    s.warning s!"Required field '{field.name}' has no mapping"
  let invalid := found.countP fun v => !v.isValid
  if 0 < invalid then fail (.invalid invalid found.length)

/-- The record in a file, its values under the ids of source fields. -/
def loadRecord (path : String) : Work (Keyed Json) := do
  match ← orFail .file ((← get).files.record Json path) with
  | .object members => pure members
  | _ => fail (.file (.malformed path "a JSON object keyed by source field id"))

def mapRecord (c : Configuration) (s : Style) (m : MappingFiles) (path : String) : Work Unit := do
  let (mapping, schema) ← loadSchema m
  let record ← loadRecord path
  let cache ← orFail .engine (Cache.withSettings c.cacheSettings)
  let mapped := (schema.mapRecord mapping.rules cache record).record
  if !s.isHuman then s.data (Record.encode mapped)
  else
    s.heading "Mapped values"
    writeLine (Json.object mapped.values).pretty
    mapped.issues.forM fun i => s.warning s!"{i.destination} ← {i.source}: {i.message}"

end FieldBridge.CommandLine
