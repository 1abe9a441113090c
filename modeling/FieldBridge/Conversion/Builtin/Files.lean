import FieldBridge.Conversion.Basic
import FieldBridge.Conversion.Display
import FieldBridge.Text.Case

/-!
# Conversions of files

A file is an object with a name and an address. An index past the end of a list of
files means its last file.
-/

namespace FieldBridge.Builtin

def fileAt? (v : Json) (index : Nat) : Option Json :=
  v.array?.bind fun files => files[min index (files.length - 1)]?

/-! ## Images -/

def imageEndings : List String := [".jpg", ".jpeg", ".png", ".gif", ".svg", ".webp"]

/-- An image has one of the endings at the end of its name, or anywhere in its address. -/
def looksLikeImage (name url : String) : Bool :=
  let (name, url) := ((Text.lower name).toList, (Text.lower url).toList)
  imageEndings.any fun ending => ending.toList.isSuffixOf name || Text.occursIn ending.toList url

def imageOf (file : Json) : Json :=
  let url := file.memberText "url"
  if url.isEmpty || !looksLikeImage (file.memberText "name") url then .null
  else
    match file.member? "name" with
    | some name => .object [("name", name), ("url", .string url)]
    | none => .object [("url", .string url)]

def runFilesToImage (v : Json) (options : Options) : Except Failure Json := do
  let index ← options.index "index" 0
  .ok (((fileAt? v index).map imageOf).getD .null)

/-! ## Addresses and texts -/

def runFilesToUrl (v : Json) (options : Options) : Except Failure Json := do
  let index ← options.index "index" 0
  let url := ((fileAt? v index).map (Json.memberText "url")).getD ""
  .ok (if url.isEmpty then .null else .string url)

def fileText (names : Bool) (file : Json) : String :=
  let url := file.memberText "url"
  if names then file.memberText "name" ++ " (" ++ url ++ ")" else url

def runFilesToText (v : Json) (options : Options) : Except Failure Json := do
  let names ← options.flag "includeNames" true
  match v with
  | .array files => .ok (.string (Text.join ", " (files.map (fileText names))))
  | _ => .ok (.string "")

def runFilesToFile (v : Json) (_ : Options) : Except Failure Json :=
  match v with
  | .array (file :: _) => .ok file
  | _ => .ok .null

/-! ## The conversions -/

def file (name url : String) : Json := .object [("name", .string name), ("url", .string url)]

def filesToFile : Conversion :=
  { id := "files_to_file", source := .files, target := .files, name := "Files to single file"
    description := "Keeps only the first file of a collection", impact := .low, complexity := .low
    benchmarkable := true, run := runFilesToFile
    sample := ⟨.array [file "imagen1.jpg" "https://example.com/imagen1.jpg",
        file "imagen2.jpg" "https://example.com/imagen2.jpg"],
      file "imagen1.jpg" "https://example.com/imagen1.jpg"⟩ }

def filesToText : Conversion :=
  { id := "files_to_text", source := .files, target := .text, name := "Files to text"
    description := "Lists file URLs as comma-separated text", impact := .low, complexity := .low, benchmarkable := true
    run := runFilesToText
    sample := ⟨.array [file "documento.pdf" "https://example.com/documento.pdf",
        file "presentacion.ppt" "https://example.com/presentacion.ppt"],
      .string ("documento.pdf (https://example.com/documento.pdf), " ++
        "presentacion.ppt (https://example.com/presentacion.ppt)")⟩ }

def filesToImage : Conversion :=
  { id := "files_to_image", source := .files, target := .image, name := "Files to image"
    description := "Extracts an image from a list of files", impact := .low, complexity := .low, benchmarkable := true
    run := runFilesToImage
    sample := ⟨.array [file "imagen.jpg" "https://example.com/imagen.jpg",
        file "documento.pdf" "https://example.com/documento.pdf"],
      file "imagen.jpg" "https://example.com/imagen.jpg"⟩ }

def filesToUrl : Conversion :=
  { id := "files_to_url", source := .files, target := .url, name := "Files to URL"
    description := "Extracts the URL of a file", impact := .low, complexity := .low, benchmarkable := true
    run := runFilesToUrl
    sample := ⟨.array [file "documento.pdf" "https://example.com/documento.pdf",
        file "imagen.jpg" "https://example.com/imagen.jpg"],
      .string "https://example.com/documento.pdf"⟩ }

end FieldBridge.Builtin
