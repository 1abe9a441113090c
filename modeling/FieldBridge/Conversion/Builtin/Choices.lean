import FieldBridge.Conversion.Basic
import FieldBridge.Conversion.Display
import FieldBridge.Text.Blank

/-!
# Conversions between one option and several
-/

namespace FieldBridge.Builtin

def runSelectToMultiSelect (v : Json) (_ : Options) : Except Failure Json :=
  let name := Text.trim v.choiceName
  .ok (.array (if name.isEmpty then [] else [Json.choice name]))

def runMultiSelectToSelect (v : Json) (_ : Options) : Except Failure Json :=
  match v with
  | .array (first :: _) =>
    .ok (if Text.isBlankText first.choiceName then .null else Json.choice first.choiceName)
  | _ => .ok .null

def selectToMultiSelect : Conversion :=
  { id := "select_to_multi_select", source := .select, target := .multiSelect, name := "Select to multi-select"
    description := "Wraps a selected option in a multi-select list", impact := .low, complexity := .low
    benchmarkable := true, run := runSelectToMultiSelect
    sample := ⟨Json.choice "Diseño", .array [Json.choice "Diseño"]⟩ }

def multiSelectToSelect : Conversion :=
  { id := "multi_select_to_select", source := .multiSelect, target := .select, name := "Multi-select to select"
    description := "Keeps the first selected option", impact := .low, complexity := .low, benchmarkable := true
    run := runMultiSelectToSelect
    sample := ⟨.array [Json.choice "Diseño", Json.choice "Web"], Json.choice "Diseño"⟩ }

end FieldBridge.Builtin
