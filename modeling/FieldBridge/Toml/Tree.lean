import FieldBridge.Document.Basic

/-!
# Tables of TOML

Headers and dotted keys open tables inside one another. A table has one header at most,
a key one value, and a dotted key adds only to tables without a header of their own.
-/

namespace FieldBridge.Toml

/-- What opened a table first. -/
inductive Origin where
  /-- a longer header -/
  | implied
  | header
  | dotted
  deriving DecidableEq, Repr

inductive Item where
  | value (d : Document)
  | table (origin : Origin) (entries : List (String × Item))
  /-- an array of tables, each of which has the same header -/
  | tables (elements : List (List (String × Item)))

abbrev Entries := List (String × Item)

namespace Entries

def find? (key : String) : Entries → Option Item := List.lookup key

/-- Puts an item in the place of the one that a key has. -/
def replace (key : String) (item : Item) (es : Entries) : Entries :=
  es.map fun e => if e.1 = key then (key, item) else e

/-- Changes the table that a header names; of an array of tables the last one is meant. -/
def within : List String → (Entries → Option Entries) → Entries → Option Entries
  | [], f, es => f es
  | k :: ks, f, es =>
    match es.find? k with
    | none => (within ks f []).map fun sub => es ++ [(k, .table .implied sub)]
    | some (.table origin sub) => (within ks f sub).map fun sub => es.replace k (.table origin sub)
    | some (.tables elements) =>
      (within ks f (elements.getLast?.getD [])).map fun last => es.replace k (.tables (elements.dropLast ++ [last]))
    | some (.value _) => none

/-- Opens the table of a header. -/
def openTable (path : List String) (key : String) : Entries → Option Entries :=
  within path fun es =>
    match es.find? key with
    | none => some (es ++ [(key, .table .header [])])
    | some (.table .implied sub) => some (es.replace key (.table .header sub))
    | some _ => none

/-- Opens one more table of an array. -/
def openElement (path : List String) (key : String) : Entries → Option Entries :=
  within path fun es =>
    match es.find? key with
    | none => some (es ++ [(key, .tables [[]])])
    | some (.tables elements) => some (es.replace key (.tables (elements ++ [[]])))
    | some _ => none

/-- Gives a dotted key its value. -/
def assign (d : Document) : List String → Entries → Option Entries
  | [], _ => none
  | [k], es => if (es.find? k).isSome then none else some (es ++ [(k, .value d)])
  | k :: ks, es =>
    match es.find? k with
    | none => (assign d ks []).map fun sub => es ++ [(k, .table .dotted sub)]
    | some (.table .header _) => none
    | some (.table origin sub) => (assign d ks sub).map fun sub => es.replace k (.table origin sub)
    | some _ => none

end Entries

mutual
def Item.document : Item → Document
  | .value d => d
  | .table _ entries => .object (documents entries)
  | .tables elements => .list (elementDocuments elements) true
def documents : List (String × Item) → List (String × Document)
  | [] => []
  | (k, i) :: rest => (k, i.document) :: documents rest
def elementDocuments : List (List (String × Item)) → List Document
  | [] => []
  | es :: rest => .object (documents es) :: elementDocuments rest
end

end FieldBridge.Toml
