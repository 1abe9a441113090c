import FieldBridge.Json.Basic

/-!
# Documents

What a data file holds, whatever its format: scalars, lists and objects, the members
of an object in their written order. A scalar that was written without quotes keeps
its spelling, since where a text is wanted it is that text. In some formats a list may
stand for a record, its values by their positions.
-/

namespace FieldBridge

inductive Scalar where
  | null
  | bool (b : Bool)
  | number (n : Number)
  | text (s : String)
  /-- a whole number of more than 64 bits -/
  | tooLarge
  /-- an infinity, or a float that is no number -/
  | notFinite

inductive Document where
  | scalar (value : Scalar) (spelling : Option String)
  | list (items : List Document) (isRow : Bool)
  | object (members : List (String × Document))

namespace Scalar

def toJson? : Scalar → Option Json
  | null => some .null
  | bool b => some (.bool b)
  | number n => some (.number n)
  | text s => some (.string s)
  | tooLarge => none
  | notFinite => some .null

end Scalar

namespace Document

mutual
def ofJson : Json → Document
  | .array items => list (ofItems items) true
  | .object members => object (ofMembers members)
  | .null => scalar .null none
  | .bool b => scalar (.bool b) none
  | .number n => scalar (.number n) none
  | .string s => scalar (.text s) none
def ofItems : List Json → List Document
  | [] => []
  | v :: rest => ofJson v :: ofItems rest
def ofMembers : List (String × Json) → List (String × Document)
  | [] => []
  | (k, v) :: rest => (k, ofJson v) :: ofMembers rest
end

mutual
/-- The JSON tree of a document, with its members as written. -/
def toJson? : Document → Option Json
  | scalar value _ => value.toJson?
  | list items _ => (toItems? items).map .array
  | object members => (toMembers? members).map .object
def toItems? : List Document → Option (List Json)
  | [] => some []
  | d :: rest => match toJson? d, toItems? rest with
    | some v, some vs => some (v :: vs)
    | _, _ => none
def toMembers? : List (String × Document) → Option (List (String × Json))
  | [] => some []
  | (k, d) :: rest => match toJson? d, toMembers? rest with
    | some v, some vs => some ((k, v) :: vs)
    | _, _ => none
end

mutual
/-- Without the spellings of scalars. -/
def settled : Document → Document
  | scalar value _ => scalar value none
  | list items isRow => list (settledItems items) isRow
  | object members => object (settledMembers members)
def settledItems : List Document → List Document
  | [] => []
  | d :: rest => settled d :: settledItems rest
def settledMembers : List (String × Document) → List (String × Document)
  | [] => []
  | (k, d) :: rest => (k, settled d) :: settledMembers rest
end

def isNull : Document → Bool
  | scalar .null _ => true
  | _ => false

/-- A text, or the spelling of any scalar without quotes. -/
def text? : Document → Option String
  | scalar (.text s) _ => some s
  | scalar _ spelling => spelling
  | _ => none

/-- An empty scalar, which also stands for a list or an object that holds nothing. -/
def isEmpty : Document → Bool
  | scalar .null (some "") => true
  | _ => false

/-- The items of a list. -/
def items? : Document → Option (List Document)
  | list items _ => some items
  | d => if d.isEmpty then some [] else none

/-- The members of an object. -/
def members? : Document → Option (List (String × Document))
  | object members => some members
  | d => if d.isEmpty then some [] else none

def number? : Document → Option Number
  | scalar (.number n) _ => some n
  | _ => none

/-- The name of a choice: a text, or the only member of an object that holds nothing. -/
def choice? : Document → Option String
  | object [(name, scalar .null none)] => some name
  | d => d.text?

/-! ## Rows and objects of values -/

/-- A place for one value of a record: its names in an object, and whether a row may end
before it. -/
structure Slot where
  names : List String
  mayEnd : Bool

/-- The only value under any of some names; a second one is an error. -/
def named? (names : List String) (members : List (String × Document)) : Option (Option Document) :=
  match members.filter fun m => names.contains m.1 with
  | [] => some none
  | [(_, d)] => some (some d)
  | _ => none

/-- The values of a row by their positions, one for each slot. -/
def row? : List Slot → List Document → Option (List (Option Document))
  | [], [] => some []
  | [], _ :: _ => none
  | s :: slots, [] => if s.mayEnd then (row? slots []).map (none :: ·) else none
  | _ :: slots, d :: rest => (row? slots rest).map (some d :: ·)

/-- The values in the slots of a record, which is an object or a row. Unknown members do not
matter. -/
def slots? (slots : List Slot) (d : Document) : Option (List (Option Document)) :=
  match d with
  | list items true => row? slots items
  | _ => d.members?.bind fun members => slots.mapM fun s => named? s.names members

end Document

end FieldBridge
