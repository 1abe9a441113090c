import FieldBridge.Json.Printer
import FieldBridge.Text.Split

/-!
# Values as text

The text of any value, the name of an option, the plain text of formatted text, and
when a value counts as true.
-/

namespace FieldBridge

/-- A whole float below `10 ^ 15` is written without a point. -/
def Number.display : Number → String
  | .int n _ => toString n
  | .float x h =>
    if Decimal.isWhole x && x.abs < 1e15 then toString (Decimal.clampInt64 (Decimal.truncate x))
    else (Number.float x h).text

namespace Json

/-- The text of any value, empty for `null`. -/
def display : Json → String
  | null => ""
  | string s => s
  | bool true => "true"
  | bool false => "false"
  | number n => n.display
  | v => v.compact

/-- Whether a value is there and is neither false, zero nor empty text. -/
def isTruthy : Json → Bool
  | null => false
  | bool b => b
  | number n => n.toFloat != 0.0
  | string s => !s.isEmpty
  | array _ => true
  | object _ => true

/-- A number as a whole number where it is one of fewer than 16 digits. -/
def ofFloat (x : Float) : Json :=
  if Decimal.isWhole x && x.abs < 1e15 then int (Decimal.truncate x) else float x

/-! ## Options of a choice -/

/-- An option of a choice is known by its name. -/
def choice (name : String) : Json := object [("name", string name)]

/-- The name of an option, or the text of the value itself. -/
def choiceName (v : Json) : String :=
  match v with
  | object members =>
    match Keyed.find? "name" members with
    | some (string name) => name
    | _ => v.compact
  | _ => v.display

end Json

/-! ## Formatted text -/

namespace Text

/-- Without the tags: a tag goes from `<` to the next `>`. -/
def withoutTags : List Char → List Char
  | [] => []
  | c :: cs =>
    if c = '<' ∧ '>' ∈ cs then withoutTags ((cs.dropWhile (· != '>')).drop 1) else c :: withoutTags cs
termination_by cs => cs.length
decreasing_by
  · have := List.dropWhile_sublist (· != '>') (l := cs)
    have := this.length_le
    simp only [List.length_drop, List.length_cons]
    omega
  · simp

end Text

namespace Json

/-- The text of one block of formatted text. -/
def blockText (block : Json) : String :=
  match (block.member? "plain_text").bind string? with
  | some s => s
  | none => (((block.member? "text").bind (member? "content")).bind string?).getD ""

/-- The text of formatted text: blocks with a blank between them, or markup without its tags. -/
def plainText : Json → String
  | array blocks => Text.join " " (blocks.map blockText)
  | string s => String.ofList (Text.withoutTags s.toList)
  | v => v.display

/-- Formatted text of one block without any formatting. -/
def richText (content : String) : Json :=
  array [object [
    ("annotations", object [("bold", bool false), ("code", bool false), ("color", string "default"),
      ("italic", bool false), ("strikethrough", bool false), ("underline", bool false)]),
    ("text", object [("content", string content)]),
    ("type", string "text")]]

end Json

end FieldBridge
