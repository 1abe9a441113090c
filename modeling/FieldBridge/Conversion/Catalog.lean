import FieldBridge.Error

/-!
# Catalogs of conversions

A catalog holds conversions in the order of their registration, found by id or by a
pair of distinct kinds. There is at most one conversion for such a pair, and none for
a pair that needs none. Conversions from a kind to itself are found by id only.
-/

namespace FieldBridge

structure Catalog where
  conversions : List Conversion
  byId : List (String × Nat)
  byPair : List ((Kind × Kind) × Nat)

namespace Catalog

def empty : Catalog := ⟨[], [], []⟩

def size (c : Catalog) : Nat := c.conversions.length

def get? (id : String) (c : Catalog) : Option Conversion :=
  (c.byId.lookup id).bind fun position => c.conversions[position]?

/-- The conversion from one kind to another. -/
def find? (source target : Kind) (c : Catalog) : Option Conversion :=
  (c.byPair.lookup (source, target)).bind fun position => c.conversions[position]?

/-- All conversions declared from one kind to another, or from a kind to itself. -/
def available (source target : Kind) (c : Catalog) : List Conversion :=
  c.conversions.filter fun t => t.source == source && t.target == target

/-- What speaks against a conversion. -/
def refusal? (c : Catalog) (t : Conversion) : Option Refusal :=
  if (c.byId.lookup t.id).isSome then some .idTaken
  else if t.source = t.target then none
  else if t.target.accepts t.source then some (.direct t.source t.target)
  else (c.find? t.source t.target).map fun held => .pairTaken t.source t.target held.id

/-- Puts a conversion behind all others. -/
def append (c : Catalog) (t : Conversion) : Catalog :=
  { conversions := c.conversions ++ [t]
    byId := (t.id, c.size) :: c.byId
    byPair := if t.source = t.target then c.byPair else ((t.source, t.target), c.size) :: c.byPair }

/-- Whether a conversion was taken, and the catalog afterwards. -/
def register (c : Catalog) (t : Conversion) : Except Error Unit × Catalog :=
  match c.refusal? t with
  | some refusal => (.error (.registration t.id refusal), c)
  | none => (.ok (), c.append t)

/-- The catalog with conversions registered one after another, if none of them is refused. -/
def registerAll (c : Catalog) : List Conversion → Except Error Catalog
  | [] => .ok c
  | t :: rest =>
    match c.register t with
    | (.error e, _) => .error e
    | (.ok (), c) => c.registerAll rest

end Catalog

end FieldBridge
