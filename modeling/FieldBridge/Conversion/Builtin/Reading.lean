import FieldBridge.Calendar.Reading
import FieldBridge.Conversion.Basic
import FieldBridge.Conversion.Display
import FieldBridge.Decimal.Nearest
import FieldBridge.Text.Case
import FieldBridge.Text.Digit
import FieldBridge.Url.Basic

/-!
# Conversions that read text

Text is read as a number, a date, a truth value, an address or a list of options. Text
that cannot be read gives `null`, `false` or a default, never a failure.
-/

namespace FieldBridge.Builtin

/-! ## Numbers -/

/-- Currency signs, commas and blanks inside a number do not count. -/
def isFiller (c : Char) : Bool := "$€£¥,".toList.contains c || Text.isBlank c

/-- The exponent at the start of a text, if one is there. -/
def exponentPart (cs : List Char) : List Char :=
  match cs with
  | [] => []
  | e :: rest =>
    if e = 'e' ∨ e = 'E' then
      let sign := if rest.head? = some '-' ∨ rest.head? = some '+' then rest.take 1 else []
      let digits := (rest.drop sign.length).takeWhile Text.isDigit
      if digits.isEmpty then [] else e :: sign ++ digits
    else []

/-- The longest number at the start of a text, empty when it starts with none. Digits of all
scripts count as digits here. -/
def numberAtStart (cs : List Char) : List Char :=
  let sign := if cs.head? = some '-' ∨ cs.head? = some '+' then cs.take 1 else []
  let cs := cs.drop sign.length
  let whole := cs.takeWhile Text.isDigit
  let rest := cs.drop whole.length
  let point := if rest.head? = some '.' then ['.'] else []
  let rest := rest.drop point.length
  let fraction := if point.isEmpty then [] else rest.takeWhile Text.isDigit
  if whole.isEmpty && fraction.isEmpty then []
  else sign ++ whole ++ point ++ fraction ++ exponentPart (rest.drop fraction.length)

def readNumber? (s : String) : Option Float :=
  match numberAtStart (s.toList.filter (!isFiller ·)) with
  | [] => none
  | cs => (Decimal.float? (String.ofList cs)).filter (·.isFinite)

/-- Whether numbers are cut to whole ones. -/
def wholeNumbers (options : Options) : Except Failure Bool := do
  let mode ← options.text "parseMode" "float"
  if mode = "float" then .ok false
  else if mode = "integer" then .ok true
  else .error (.invalidOption "parseMode" .numberMode)

def runTextToNumber (v : Json) (options : Options) : Except Failure Json := do
  let integers ← wholeNumbers options
  let fallback := options.value "fallback" (.int 0)
  let text := match v with
    | .number n => n.text
    | _ => v.display
  match readNumber? text with
  | some x => .ok (if integers then .int (Decimal.clampInt64 (Decimal.truncate x)) else Json.ofFloat x)
  | none => .ok fallback

/-! ## Dates -/

def date (d : Date) : Json := .object [("start", .string d.iso)]

def runTextToDate (v : Json) (_ : Options) : Except Failure Json :=
  match v with
  | .string s => .ok (((Date.parse? s).map date).getD .null)
  | _ => .ok .null

/-! ## Options of a choice -/

/-- The pieces of a text between separators, without blanks around them and without empty
ones. An empty separator means a comma. -/
def splitChoices (text : String) (options : Options) : Except Failure Json := do
  let separator ← options.text "separator" ","
  let separator := if separator.isEmpty then "," else separator
  let names := ((Text.split separator text).map Text.trim).filter (!·.isEmpty)
  .ok (.array (names.map Json.choice))

def runTextToMultiSelect (v : Json) (options : Options) : Except Failure Json := splitChoices v.display options

def runRichTextToMultiSelect (v : Json) (options : Options) : Except Failure Json := splitChoices v.plainText options

def runTextToSelect (v : Json) (_ : Options) : Except Failure Json :=
  let text := Text.trim v.display
  .ok (if text.isEmpty then .null else Json.choice text)

/-! ## Truth values -/

def trueWords : List String := ["true", "yes", "sí", "si", "1", "verdadero", "cierto"]

def runTextToCheckbox (v : Json) (_ : Options) : Except Failure Json :=
  .ok (.bool (trueWords.contains (Text.lower (Text.trim v.display))))

/-- A text is true when it spells a number other than zero, or no number but is not blank. -/
def isTrueText (s : String) : Bool :=
  let t := Text.trim s
  match Decimal.float? t with
  | some x => x != 0.0
  | none => !t.isEmpty

def runNumberToCheckbox (v : Json) (_ : Options) : Except Failure Json :=
  match v with
  | .string s => .ok (.bool (isTrueText s))
  | _ => .ok (.bool v.isTruthy)

/-! ## Addresses -/

/-- Whether a text begins with letters, a colon and two slashes. -/
def hasScheme (cs : List Char) : Bool :=
  (cs.head?.map Char.isAlpha).getD false && "://".toList.isPrefixOf (cs.dropWhile Char.isAlpha)

/-- A text with a scheme in front, if it is to get one and has none. -/
def completed (addHttps : Bool) (text : String) : String :=
  if addHttps && !hasScheme text.toList then "https://" ++ text else text

/-- A text as an address, which is any text that `accepts` takes. -/
def readAddress (accepts : String → Bool) (v : Json) (options : Options) : Except Failure Json := do
  let addHttps ← options.flag "addHttps" true
  let returnOriginal ← options.flag "returnOriginal" false
  match v with
  | .string s =>
    let text := Text.trim s
    if text.isEmpty then .ok .null
    else
      let candidate := completed addHttps text
      .ok (if accepts candidate then .string candidate else if returnOriginal then v else .null)
  | _ => .ok .null

def runTextToUrl : Json → Options → Except Failure Json := readAddress Url.isAbsolute

/-! ## The conversions -/

def threeChoices : Json := .array [Json.choice "Diseño", Json.choice "Web", Json.choice "UI/UX"]

def textToNumber : Conversion :=
  { id := "text_to_number", source := .text, target := .number, name := "Text to number"
    description := "Parses a number from text, ignoring currency symbols and separators", impact := .low
    complexity := .medium, benchmarkable := true, run := runTextToNumber
    sample := ⟨.string "$1,234.56", .float 1234.56⟩ }

def textToDate : Conversion :=
  { id := "text_to_date", source := .text, target := .date, name := "Text to date"
    description := "Parses text into a date property", impact := .medium, complexity := .medium, benchmarkable := true
    run := runTextToDate, sample := ⟨.string "15/05/2023", .object [("start", .string "2023-05-15")]⟩ }

def textToMultiSelect : Conversion :=
  { id := "text_to_multi_select", source := .text, target := .multiSelect, name := "Text to multi-select"
    description := "Splits separated text into multi-select options", impact := .low, complexity := .low
    benchmarkable := true, run := runTextToMultiSelect, sample := ⟨.string "Diseño, Web, UI/UX", threeChoices⟩ }

def textToSelect : Conversion :=
  { id := "text_to_select", source := .text, target := .select, name := "Text to select"
    description := "Converts text to a selected option", impact := .low, complexity := .low, benchmarkable := true
    run := runTextToSelect, sample := ⟨.string "Diseño", Json.choice "Diseño"⟩ }

def richTextToMultiSelect : Conversion :=
  { id := "rich_text_to_multi_select", source := .richText, target := .multiSelect
    name := "Rich text to multi-select", description := "Splits formatted text into multi-select options"
    impact := .medium, complexity := .medium, benchmarkable := true, run := runRichTextToMultiSelect
    sample := ⟨.array [.object [("text", .object [("content", .string "Diseño, Web, UI/UX")])]], threeChoices⟩ }

def numberToCheckbox : Conversion :=
  { id := "number_to_checkbox", source := .number, target := .checkbox, name := "Number to checkbox"
    description := "Converts a number to a boolean (0 is false, anything else true)", impact := .low
    complexity := .low, benchmarkable := true, run := runNumberToCheckbox, sample := ⟨.int 1, .bool true⟩ }

def textToCheckbox : Conversion :=
  { id := "text_to_checkbox", source := .text, target := .checkbox, name := "Text to checkbox"
    description := "Converts yes/true/1 style text to a boolean", impact := .low, complexity := .low
    benchmarkable := true, run := runTextToCheckbox, sample := ⟨.string "Sí", .bool true⟩ }

def textToUrl : Conversion :=
  { id := "text_to_url", source := .text, target := .url, name := "Text to URL"
    description := "Converts text to a URL, validating its format", impact := .low, complexity := .low
    benchmarkable := true, run := runTextToUrl
    sample := ⟨.string "example.com", .string "https://example.com"⟩ }

end FieldBridge.Builtin
