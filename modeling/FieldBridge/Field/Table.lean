import FieldBridge.Field.Basic

/-!
# Field tables

A table is a list of fields with pairwise distinct ids, together with the position of
each id. Building one fails at the first field whose id an earlier field has.
-/

namespace FieldBridge

/-- Things that are known by a text. -/
class Identified (α : Type) where
  id : α → String

instance : Identified SourceField := ⟨fun f => f.id⟩

instance : Identified DestinationField := ⟨fun f => f.id⟩

structure FieldTable (α : Type) where
  fields : List α
  index : List (String × Nat)
  deriving Repr

namespace FieldTable

variable {α : Type}

def empty : FieldTable α := ⟨[], []⟩

/-- Adds the positions of fields, of which the first stands at `position`. -/
def indexFrom [Identified α] (position : Nat) (index : List (String × Nat)) :
    List α → Except String (List (String × Nat))
  | [] => .ok index
  | f :: rest =>
    if (index.lookup (Identified.id f)).isSome then .error (Identified.id f)
    else indexFrom (position + 1) ((Identified.id f, position) :: index) rest

/-- The table of a list of fields, or the first id that occurs again. -/
def ofList [Identified α] (fields : List α) : Except String (FieldTable α) :=
  (indexFrom 0 [] fields).map fun index => ⟨fields, index⟩

def get? (id : String) (t : FieldTable α) : Option α :=
  (t.index.lookup id).bind fun position => t.fields[position]?

def size (t : FieldTable α) : Nat := t.fields.length

end FieldTable

end FieldBridge
