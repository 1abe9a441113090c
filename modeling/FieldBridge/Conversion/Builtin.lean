import FieldBridge.Conversion.Builtin.Choices
import FieldBridge.Conversion.Builtin.Files
import FieldBridge.Conversion.Builtin.Reading
import FieldBridge.Conversion.Builtin.Text
import FieldBridge.Conversion.Catalog

/-!
# The built-in conversions

All of them in the order in which they are registered, and the catalog they make up.
-/

namespace FieldBridge

open Builtin in
def builtins : List Conversion :=
  [ richTextToText, textToRichText, multiSelectToText, selectToText, dateToText, numberToText, checkboxToText,
    filesToFile, filesToText, filesToImage, textToNumber, textToDate, textToMultiSelect, textToSelect,
    richTextToMultiSelect, numberToCheckbox, textToCheckbox, textToUrl, urlToText, filesToUrl, selectToMultiSelect,
    multiSelectToSelect, statusToText, emailToText, phoneNumberToText, formulaToText ]

/-- The catalog of all built-in conversions. -/
def Catalog.builtin : Catalog := builtins.foldl Catalog.append .empty

/-- None of the built-in conversions is refused by those before it. -/
theorem Catalog.registerAll_builtins : Catalog.empty.registerAll builtins = .ok .builtin := rfl

end FieldBridge
