import FieldBridge.Calendar.Date
import FieldBridge.Conversion.Display
import FieldBridge.Field.Kind

/-!
# Sample values

For each kind a fixed sequence of values, so that every run sees the same ones.
-/

namespace FieldBridge

namespace Sample

/-- The date a number of days after 2024-01-01, and 1970-01-01 past the end of the calendar. -/
def day (i : Nat) : String := (((Date.mk 2024 1 1).addDays? i).getD ⟨1970, 1, 1⟩).iso

def named (id name : String) : Json := .object [("id", .string id), ("name", .string name)]

def file (name : String) : Json :=
  .object [("name", .string name), ("url", .string s!"https://example.com/{name}")]

def computed (n : Nat) : Json := .object [("number", .nat n), ("type", .string "number")]

/-- The last three digits of a number, with zeros in front. -/
def threeDigits (n : Nat) : String := Padding.zero.number 3 (n % 1000)

end Sample

open Sample in
def Kind.sample (i : Nat) : Kind → Json
  | text | title => .string s!"Texto de ejemplo {i + 1}"
  | richText => .array [.object [("text", .object [("content", .string s!"Texto con formato {i + 1}")])]]
  | number => .float (Float.ofNat i * 10.5 + 0.1)
  | date => .object [("start", .string (day i))]
  | createdTime | lastEditedTime => .string (day i ++ "T09:00:00.000Z")
  | checkbox => .bool (i % 2 == 0)
  | select | status => Json.choice s!"Opción {i + 1}"
  | multiSelect => .array [Json.choice s!"Opción A{i}", Json.choice s!"Opción B{i}"]
  | url => .string s!"https://example{i}.com"
  | email => .string s!"usuario{i}@example.com"
  | phoneNumber => .string s!"+34 600 000 {threeDigits i}"
  | person | createdBy | lastEditedBy => named s!"user-{i}" s!"Usuario {i + 1}"
  | files => .array [file s!"documento{i}.pdf", file s!"imagen{i}.jpg"]
  | image => .object [("url", .string s!"https://example.com/imagen{i}.jpg")]
  | formula => computed i
  | relation => .array [.object [("id", .string s!"page-{i}")]]
  | rollup => computed (2 * i)

def Kind.samples (k : Kind) (count : Nat) : List Json := (List.range count).map k.sample

end FieldBridge
