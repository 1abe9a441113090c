import FieldBridge.Conversion.Basic
import FieldBridge.Conversion.Display
import FieldBridge.Calendar.Instant
import FieldBridge.Calendar.Pattern

/-!
# Conversions into text

Every value has a text, so these never refuse a value. A date is written by a pattern,
which is refused when it is not one.
-/

namespace FieldBridge.Builtin

def asText (v : Json) : Json := .string v.display

def yesNo (b : Bool) : String := if b then "Sí" else "No"

/-! ## Dates -/

def dateOf? : Json → Option Date
  | .string s => Date.parse? s
  | .number n => n.toInt?.bind fun i => if i < 0x8000000000000000 then Instant.dateOfMillis? i else none
  | _ => none

def datePattern (options : Options) : Except Failure Pattern := do
  let text ← options.text "format" "%d/%m/%Y"
  match Pattern.parse? text with
  | some pattern => .ok pattern
  | none => .error (.invalidOption "format" .datePattern)

/-- A date, or the start and the end of a range of dates, in the form of a pattern. What is
not a date stays as it is. -/
def dateText (pattern : Pattern) (v : Json) : String :=
  let render? (raw : Json) : Option String := (dateOf? raw).bind pattern.render?
  match v.member? "start" with
  | none => (render? v).getD v.display
  | some start =>
    match render? start, (v.member? "end").bind render? with
    | some first, some last => first ++ " - " ++ last
    | some first, none => first
    | none, _ => start.display

def runDateToText (v : Json) (options : Options) : Except Failure Json := do
  let pattern ← datePattern options
  .ok (.string (dateText pattern v))

/-! ## Formulas -/

/-- The result of a formula stands under the name of its type. -/
def formulaResult (v : Json) : Json :=
  (((v.member? "type").bind Json.string?).bind fun kind => v.member? kind).getD v

def runFormulaToText (v : Json) (_ : Options) : Except Failure Json :=
  let result := formulaResult v
  match result with
  | .bool b => .ok (.string (yesNo b))
  | _ => if (result.member? "start").isSome then runDateToText result .empty else .ok (asText result)

/-! ## Choices -/

def runMultiSelectToText (v : Json) (_ : Options) : Except Failure Json :=
  match v with
  | .array items => .ok (.string (Text.join ", " (items.map Json.choiceName)))
  | _ => .ok (asText v)

def runChoiceToText (v : Json) (_ : Options) : Except Failure Json := .ok (.string v.choiceName)

/-! ## The conversions -/

def richTextToText : Conversion :=
  { id := "rich_text_to_text", source := .richText, target := .text, name := "Rich text to text"
    description := "Converts formatted text to plain text", impact := .low, complexity := .low, benchmarkable := true
    run := fun v _ => .ok (.string v.plainText)
    sample := ⟨.array [.object [("text", .object [("content", .string "Texto con formato")])]],
      .string "Texto con formato"⟩ }

def textToRichText : Conversion :=
  { id := "text_to_rich_text", source := .text, target := .richText, name := "Text to rich text"
    description := "Wraps plain text in a rich text block with default annotations", impact := .low, complexity := .low
    benchmarkable := true, run := fun v _ => .ok (Json.richText v.display)
    sample := ⟨.string "Texto simple", Json.richText "Texto simple"⟩ }

def multiSelectToText : Conversion :=
  { id := "multi_select_to_text", source := .multiSelect, target := .text, name := "Multi-select to text"
    description := "Joins selected options into comma-separated text", impact := .low, complexity := .low
    benchmarkable := true, run := runMultiSelectToText
    sample := ⟨.array [Json.choice "Diseño", Json.choice "Web"], .string "Diseño, Web"⟩ }

def selectToText : Conversion :=
  { id := "select_to_text", source := .select, target := .text, name := "Select to text"
    description := "Converts a selected option to its name", impact := .low, complexity := .low, benchmarkable := true
    run := runChoiceToText, sample := ⟨Json.choice "Diseño", .string "Diseño"⟩ }

def statusToText : Conversion :=
  { id := "status_to_text", source := .status, target := .text, name := "Status to text"
    description := "Converts a status option to its name", impact := .low, complexity := .low, benchmarkable := true
    run := runChoiceToText, sample := ⟨Json.choice "En progreso", .string "En progreso"⟩ }

def dateToText : Conversion :=
  { id := "date_to_text", source := .date, target := .text, name := "Date to text"
    description := "Formats a date as text", impact := .low, complexity := .low, benchmarkable := true
    run := runDateToText, sample := ⟨.object [("start", .string "2023-05-15")], .string "15/05/2023"⟩ }

def numberToText : Conversion :=
  { id := "number_to_text", source := .number, target := .text, name := "Number to text"
    description := "Converts a number to its text representation", impact := .low, complexity := .low
    benchmarkable := true, run := fun v _ => .ok (asText v), sample := ⟨.int 42, .string "42"⟩ }

def checkboxToText : Conversion :=
  { id := "checkbox_to_text", source := .checkbox, target := .text, name := "Checkbox to text"
    description := "Converts a boolean to \"Sí\" or \"No\"", impact := .low, complexity := .low, benchmarkable := true
    run := fun v _ => .ok (.string (yesNo v.isTruthy)), sample := ⟨.bool true, .string "Sí"⟩ }

def urlToText : Conversion :=
  { id := "url_to_text", source := .url, target := .text, name := "URL to text"
    description := "Converts a URL to plain text", impact := .low, complexity := .low, benchmarkable := true
    run := fun v _ => .ok (asText v), sample := ⟨.string "https://example.com", .string "https://example.com"⟩ }

def emailToText : Conversion :=
  { id := "email_to_text", source := .email, target := .text, name := "Email to text"
    description := "Converts an email address to plain text", impact := .low, complexity := .low, benchmarkable := true
    run := fun v _ => .ok (asText v), sample := ⟨.string "hola@example.com", .string "hola@example.com"⟩ }

def phoneNumberToText : Conversion :=
  { id := "phone_number_to_text", source := .phoneNumber, target := .text, name := "Phone number to text"
    description := "Converts a phone number to plain text", impact := .low, complexity := .low, benchmarkable := true
    run := fun v _ => .ok (asText v), sample := ⟨.string "+34 600 000 000", .string "+34 600 000 000"⟩ }

def formulaToText : Conversion :=
  { id := "formula_to_text", source := .formula, target := .text, name := "Formula to text"
    description := "Converts a computed formula result to text", impact := .low, complexity := .medium
    benchmarkable := true, run := runFormulaToText
    sample := ⟨.object [("number", .int 42), ("type", .string "number")], .string "42"⟩ }

end FieldBridge.Builtin
