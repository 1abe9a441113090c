import FieldBridge.Conversion.Record
import FieldBridge.Mapping.Validation

/-!
# Mappings in documents

Older files call destination fields case-study fields, and source fields and databases
after the service they come from; both names are read.
-/

namespace FieldBridge

open Record

instance : Record Status := ofNames Status.all Status.name

instance : Record IssueKind := ofNames IssueKind.all IssueKind.name

namespace Compatibility

def members (c : Compatibility) : List (String × Json) :=
  member "status" c.status ++ memberIf "transformationId" c.conversion ++ member "message" c.message

def read? (d : Document) : Option Compatibility := do
  match ← d.slots? [slot "status", slot "transformationId", slot "message"] with
  | [status, conversion, message] => some ⟨← needed status, ← ifAny conversion, ← needed message⟩
  | _ => none

end Compatibility

instance : Record Compatibility := ⟨fun c => .object c.members, Compatibility.read?⟩

instance : Record MappingRule where
  encode r := .object (member "destinationFieldId" r.destination ++ member "sourceFieldId" r.source ++
    memberIf "transformationId" r.conversion ++ memberIf "transformationOptions" r.options)
  decode? d := do
    match ← d.slots? [slotOf ["destinationFieldId", "caseStudyFieldId"], slotOf ["sourceFieldId", "notionFieldId"],
        lastSlot "transformationId", lastSlot "transformationOptions"] with
    | [destination, source, conversion, options] =>
      some ⟨← needed destination, ← needed source, ← ifAny conversion, ← ifAny options⟩
    | _ => none

/-- A count of 32 bits. -/
def smallCount? (d : Option Document) : Option (Option Nat) := do
  let count : Option Nat ← ifAny d
  if count.all (· < 0x100000000) then some count else none

instance : Record MappingConfiguration where
  encode c := .object (member "id" c.id ++ member "name" c.name ++ member "sourceDatabaseId" c.database ++
    member "mappings" c.rules ++ memberIf "galleryItemCount" c.galleryItems ++
    member "hasCompletedOnboarding" c.onboarded ++ member "createdAt" c.createdAt ++ member "updatedAt" c.updatedAt)
  decode? d := do
    match ← d.slots? [slot "id", slot "name", slotOf ["sourceDatabaseId", "notionDatabaseId"], lastSlot "mappings",
        lastSlot "galleryItemCount", lastSlot "hasCompletedOnboarding", slot "createdAt", slot "updatedAt"] with
    | [id, name, database, rules, galleryItems, onboarded, createdAt, updatedAt] =>
      some { id := ← needed id, name := ← needed name, database := ← needed database, rules := ← orElse [] rules
             galleryItems := ← smallCount? galleryItems, onboarded := ← orElse false onboarded
             createdAt := ← needed createdAt, updatedAt := ← needed updatedAt }
    | _ => none

instance : Record MappingIssue where
  encode i := .object (member "destinationFieldId" i.destination ++ member "sourceFieldId" i.source ++
    member "kind" i.kind ++ member "message" i.message)
  decode? d := do
    match ← d.slots? [slot "destinationFieldId", slot "sourceFieldId", slot "kind", slot "message"] with
    | [destination, source, kind, message] =>
      some ⟨← needed destination, ← needed source, ← needed kind, ← needed message⟩
    | _ => none

instance : Record MappedRecord where
  encode m := .object (member "values" (Options.mk m.values) ++ member "issues" m.issues)
  decode? d := do
    match ← d.slots? [slot "values", slot "issues"] with
    | [values, issues] =>
      let values : Options ← needed values
      some ⟨values.entries, ← needed issues⟩
    | _ => none

/-! ## Validations -/

namespace Outcome

/-- The names of the outcomes, which may also be given by their positions. -/
def names : List String := ["checked", "unknown_source_field", "unknown_destination_field"]

def members : Outcome → List (String × Json)
  | checked result => ("outcome", .string "checked") :: result.members
  | unknownSource => [("outcome", .string "unknown_source_field")]
  | unknownDestination => [("outcome", .string "unknown_destination_field")]

def position? : Document → Option Nat
  | .scalar (.text s) _ => names.findIdx? (· == s)
  | .scalar (.number n) _ => n.toNat?
  | _ => none

/-- The outcome that an object holds beside other members. -/
def beside? (d : Document) : Option Outcome := do
  match ← d.slots? [slot "outcome"] with
  | [some tag] =>
    match ← position? tag with
    | 0 => (Compatibility.read? d).map checked
    | 1 => some unknownSource
    | 2 => some unknownDestination
    | _ => none
  | _ => none

end Outcome

instance : Record Validation where
  encode v := .object (member "sourceFieldId" v.source ++ member "destinationFieldId" v.destination ++
    v.outcome.members)
  decode?
    | .object members => do
      match ← (Document.object members).slots? [slot "sourceFieldId", slot "destinationFieldId"] with
      | [source, destination] =>
        some ⟨← needed source, ← needed destination, ← Outcome.beside? (Document.object members).settled⟩
      | _ => none
    | _ => none

end FieldBridge
