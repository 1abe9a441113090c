import FieldBridge.Document.Record
import FieldBridge.Field.Basic

/-!
# Fields in documents

The members of a field stand beside those that a source or destination field adds.
Such a field is an object and no row.
-/

namespace FieldBridge

open Record

instance : Record Kind := ofNames Kind.all Kind.name

instance : Record Section := ofNames Section.all Section.name

namespace Field

def slots : List Document.Slot :=
  [slot "id", slot "name", slotOf ["type", "kind"], lastSlot "required", slot "description"]

def ofSlots? : List (Option Document) → Option Field
  | [id, name, kind, required, description] => do
    some { id := ← needed id, name := ← needed name, kind := ← needed kind, required := ← orElse false required,
           description := ← ifAny description }
  | _ => none

def members (f : Field) : List (String × Json) :=
  member "id" f.id ++ member "name" f.name ++ member "type" f.kind ++ member "required" f.required ++
    memberIf "description" f.description

end Field

instance : Record Field := ⟨fun f => .object f.members, fun d => (d.slots? Field.slots).bind Field.ofSlots?⟩

/-- The field that an object holds beside other members. Texts have to be written as such. -/
def Field.beside? (d : Document) : Option Field :=
  match d.settled with
  | .object members => decode? (.object members)
  | _ => none

instance : Record SourceField where
  encode f := .object (f.toField.members ++ memberIf "propertyType" f.propertyType)
  decode? d := do
    let field ← Field.beside? d
    match ← d.slots? [slot "propertyType"] with
    | [propertyType] => some { toField := field, propertyType := ← ifAny propertyType }
    | _ => none

instance : Record DestinationField where
  encode f := .object (f.toField.members ++ memberIf "section" f.part ++ memberIf "maxLength" f.maxLength)
  decode? d := do
    let field ← Field.beside? d
    match ← d.slots? [slot "section", slot "maxLength"] with
    | [part, maxLength] => some { toField := field, part := ← ifAny part, maxLength := ← ifAny maxLength }
    | _ => none

end FieldBridge
