import FieldBridge.Calendar.Instant
import FieldBridge.Document.Basic

/-!
# Records in documents

A record type has a JSON form, its members in the order of its fields, and is read
from a document of any format.
-/

namespace FieldBridge

class Record (α : Type) where
  encode : α → Json
  decode? : Document → Option α

namespace Record

open Document

/-! ## Values of single fields -/

instance : Record String := ⟨.string, text?⟩

instance : Record Bool where
  encode := .bool
  decode?
    | .scalar (.bool b) _ => some b
    | _ => none

/-- A natural number of 64 bits. -/
instance : Record Nat := ⟨.nat, fun d => d.number?.bind Number.toNat?⟩

instance : Record Float := ⟨.float, fun d => d.number?.map Number.toFloat⟩

instance : Record Instant := ⟨fun t => .string t.text, fun d => d.text?.bind Instant.parse?⟩

/-- Any value, with the last of several members of one name. -/
instance : Record Json := ⟨id, fun d => d.toJson?.map Json.normalize⟩

instance {α : Type} [Record α] : Record (List α) where
  encode items := .array (items.map encode)
  decode? d := d.items?.bind (·.mapM decode?)

instance {α : Type} [Record α] : Record (Keyed α) where
  encode entries := .object (entries.map fun e => (e.1, encode e.2))
  decode? d := d.members?.bind fun members =>
    (members.mapM fun m => (decode? m.2).map (m.1, ·)).map Keyed.ofList

/-- One of finitely many things that have names. -/
@[reducible] def ofNames {α : Type} (all : List α) (name : α → String) : Record α where
  encode a := .string (name a)
  decode? d := d.choice?.bind fun s => all.find? fun a => name a == s

/-! ## Fields of records -/

section
variable {α : Type} [Record α]

def slot (name : String) : Slot := ⟨[name], false⟩

def slotOf (names : List String) : Slot := ⟨names, false⟩

/-- A slot whose value may be left out even in a row. -/
def lastSlot (name : String) : Slot := ⟨[name], true⟩

/-- A value that has to be there. -/
def needed (d : Option Document) : Option α := d.bind decode?

/-- A value that may be missing or null. -/
def ifAny (d : Option Document) : Option (Option α) :=
  match d with
  | none => some none
  | some d => if d.isNull then some none else (decode? d).map some

/-- A value with a default, which may be missing but not null. -/
def orElse (a : α) (d : Option Document) : Option α :=
  match d with
  | none => some a
  | some d => decode? d

def member (name : String) (a : α) : List (String × Json) := [(name, encode a)]

/-- A member that is left out where there is no value. -/
def memberIf (name : String) (a : Option α) : List (String × Json) := a.toList.flatMap (member name)

/-- A member that is null where there is no value. -/
def memberOrNull (name : String) (a : Option α) : List (String × Json) := [(name, (a.map encode).getD .null)]

end

end Record

end FieldBridge
