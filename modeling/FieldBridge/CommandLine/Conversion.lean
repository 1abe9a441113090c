import FieldBridge.CommandLine.Command
import FieldBridge.CommandLine.Desk
import FieldBridge.Conversion.Apply
import FieldBridge.Conversion.Builtin
import FieldBridge.Mapping.Record

/-!
# Kinds and conversions on the command line

The conversions there are, how kinds relate to each other, and the conversion of a
single value.
-/

namespace FieldBridge.CommandLine

/-! ## Conversions -/

def conversionRow (t : Conversion) : List String :=
  [t.id, t.source.name, t.target.name, t.impact.name, t.complexity.name]

def exampleLine (t : Conversion) : String := t.id ++ ": " ++ t.sample.source.compact ++ " → " ++ t.sample.target.compact

def listConversions (s : Style) (source target : Option Kind) (examples : Bool) : Work Unit := do
  let selected := Catalog.builtin.conversions.filter fun t =>
    source.all (· == t.source) && target.all (· == t.target)
  if !s.isHuman then s.data (.array (selected.map Conversion.encode))
  else
    s.heading s!"Transformations ({selected.length})"
    s.table ⟨["Id", "From", "To", "Impact", "Complexity"], selected.map conversionRow⟩
    if examples then
      s.heading "Examples"
      writeLines (selected.map exampleLine)

/-! ## Kinds -/

def classify (s : Style) (destination source : Kind) : Work Unit :=
  Style.block (s.format.compatibility (Catalog.builtin.classify destination source))

def Status.word : Status → String
  | .compatible => "compatible"
  | .requiresConversion => "transform"
  | .incompatible => "incompatible"

def matrixRow (entry : Kind × Compatibility) : List String :=
  [entry.1.name, Status.word entry.2.status, entry.2.conversion.getD ""]

def matrixEntry (entry : Kind × Compatibility) : Json :=
  .object (Record.member "source" entry.1 ++ Record.member "status" entry.2.status ++
    Record.memberIf "transformationId" entry.2.conversion)

def matrix (s : Style) (destination : Kind) (mappableOnly : Bool) : Work Unit := do
  let entries := (Catalog.builtin.compatibleKinds destination).filter fun e => !mappableOnly || e.2.isMappable
  if !s.isHuman then s.data (.array (entries.map matrixEntry))
  else
    s.heading s!"Sources for {destination.label}"
    s.table ⟨["Source", "Status", "Transformation"], entries.map matrixRow⟩

/-! ## Values -/

/-- A converted value, how it was converted, and the status of the two kinds. -/
structure Converted where
  status : Status
  conversion : Option String
  value : Json

/-- Converts by a conversion that was chosen, which has to be one of the two kinds. -/
def convertBy (cache : Cache) (id : String) (source target : Kind) (v : Json) (o : Options) :
    Except CommandError Converted :=
  match Catalog.builtin.get? id with
  | none => .error (.engine (.conversionNotFound id))
  | some t =>
    if t.source = source ∧ t.target = target then
      match (Catalog.builtin.tryApply cache id v o).1 with
      | .ok result => .ok ⟨.requiresConversion, some id, result⟩
      | .error e => .error (.engine e)
    else .error (.otherKinds t source target)

/-- Converts as the two kinds require. -/
def convert (cache : Cache) (source target : Kind) (v : Json) (o : Options) : Except CommandError Converted :=
  let c := Catalog.builtin.classify target source
  match c.status with
  | .incompatible => .error (.incompatible c.message)
  | .compatible => .ok ⟨c.status, c.conversion, v⟩
  | .requiresConversion => .ok ⟨c.status, c.conversion, (Catalog.builtin.apply cache source target v o).value⟩

def apply (c : Configuration) (s : Style) (source target : Kind) (raw : String) (options conversion : Option String) :
    Work Unit := do
  let cache ← orFail .engine (Cache.withSettings c.cacheSettings)
  let v := Argument.value raw
  let o ← match options with
    | some raw => orFail .argument (Argument.options raw)
    | none => pure Options.empty
  let result ← orFail id (match conversion with
    | some id => convertBy cache id source target v o
    | none => convert cache source target v o)
  if !s.isHuman then
    s.data (.object (Record.member "from" source ++ Record.member "to" target ++ Record.member "status" result.status ++
      Record.memberIf "transformationId" result.conversion ++ [("input", v), ("output", result.value)]))
  else
    result.conversion.toList.forM fun id => s.info ("Applied " ++ id)
    writeLine result.value.pretty

end FieldBridge.CommandLine
