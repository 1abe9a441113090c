import FieldBridge.Proofs.Conversion.Choices

/-!
# Conversions along different paths

Between two kinds of field there are several ways, through one kind or another. A text that
goes through formatted text keeps its content, and an option that goes through a list of
options loses no more than the blanks around its name.
-/

namespace FieldBridge

open Text

theorem Json.plainText_richText (s : String) : (Json.richText s).plainText = s := by
  unfold Json.richText Json.plainText
  simp [Text.join, Json.blockText, Json.member?, Keyed.find?, Json.string?]

namespace Builtin

/-- One conversion and then another, each with options of its own. -/
def along (first second : Conversion) (v : Json) (o o' : Options) : Except Failure Json :=
  first.run v o >>= fun w => second.run w o'

/-! ## The option in a text -/

/-- The name in a text, if the text is not blank. -/
def named (s : String) : Option String := if isBlankText s then none else some (trim s)

def selected (s : String) : Json := ((named s).map Json.choice).getD .null

section
variable (v : Json) (s : String) (o o' : Options)

theorem named_trim : named (trim s) = named s := by
  have hblank : isBlankText (trim s) = isBlankText s := by rw [← isEmpty_trim, trim_trim, isEmpty_trim]
  unfold named
  rw [hblank, trim_trim]

theorem join_named : join ", " (named s).toList = trim s := by
  unfold named
  by_cases h : isBlankText s
  · have hempty : trim s = "" := by simpa using (isEmpty_trim s).trans h
    simp [h, hempty, join]
  · simp [h, join]

theorem named_choiceName_selected : named (selected s).choiceName = named s := by
  by_cases h : isBlankText s
  · have hnone : named s = none := by simp [named, h]
    rw [selected, hnone]
    rfl
  · have hsome : named s = some (trim s) := by simp [named, h]
    have hname : (selected s).choiceName = trim s := by
      rw [selected, hsome]
      rfl
    rw [hname, named_trim]

theorem namesOfPieces_named (h : ',' ∉ s.toList) : namesOfPieces (pieces [','] s.toList) = (named s).toList := by
  rw [namesOfPieces_comma_free h]
  unfold named isBlankText trim
  by_cases hblank : s.toList.all isBlank = true <;> simp [hblank]

/-! ## One conversion -/

theorem textToSelect_run : textToSelect.run v o = .ok (selected v.display) := by
  show runTextToSelect v o = _
  unfold runTextToSelect selected named
  simp only [isEmpty_trim]
  by_cases h : isBlankText v.display <;> simp [h]

theorem selectToMultiSelect_run : selectToMultiSelect.run v o = .ok (choices (named v.choiceName).toList) := by
  show runSelectToMultiSelect v o = _
  unfold runSelectToMultiSelect named
  simp only [isEmpty_trim]
  by_cases h : isBlankText v.choiceName <;> simp [h, choices]

theorem multiSelectToSelect_named :
    multiSelectToSelect.run (choices (named s).toList) o = .ok (selected s) := by
  show runMultiSelectToSelect _ o = _
  unfold selected
  by_cases h : isBlankText s
  · have hnone : named s = none := by simp [named, h]
    rw [hnone]
    rfl
  · have hsome : named s = some (trim s) := by simp [named, h]
    have hblank : isBlankText (trim s) = false := by
      rw [← isEmpty_trim, trim_trim, isEmpty_trim]
      simpa using h
    have hname : (Json.choice (trim s)).choiceName = trim s := rfl
    rw [hsome]
    simp [choices, runMultiSelectToSelect, hname, hblank]

end

/-! ## Two conversions -/

section
variable (v : Json) (s : String) (o o' p p' : Options)

theorem along_richText : along textToRichText richTextToMultiSelect v o o' = textToMultiSelect.run v o' := by
  show splitChoices (Json.richText v.display).plainText o' = _
  rw [Json.plainText_richText]
  rfl

theorem along_multiSelect_select :
    along selectToMultiSelect multiSelectToSelect v o o' = along selectToText textToSelect v p p' := by
  unfold along
  rw [selectToMultiSelect_run]
  show multiSelectToSelect.run (choices (named v.choiceName).toList) o' = textToSelect.run (.string v.choiceName) p'
  rw [multiSelectToSelect_named, textToSelect_run]
  rfl

theorem along_multiSelect_text :
    along selectToMultiSelect multiSelectToText v o o' = .ok (.string (trim v.choiceName)) := by
  unfold along
  rw [selectToMultiSelect_run]
  show multiSelectToText.run (choices (named v.choiceName).toList) o' = _
  rw [multiSelectToText_choices, join_named]

theorem along_select_multiSelect (h : ',' ∉ s.toList) : along textToSelect selectToMultiSelect (.string s) o o' =
    textToMultiSelect.run (.string s) .empty := by
  have hsplit := splitChoices_eq (.absent rfl) s (o := .empty)
  unfold along
  rw [textToSelect_run]
  show selectToMultiSelect.run (selected s) o' = splitChoices s .empty
  rw [hsplit, selectToMultiSelect_run, named_choiceName_selected, ← namesOfPieces_named s h]
  rfl

end

/-- **Paths between kinds of field.** Conversions along two paths that start and end alike give
the same value or the same failure, whatever options the conversions on the way are given. -/
theorem paths_agree (o o' p p' : Options) :
    (∀ v, along textToRichText richTextToMultiSelect v o o' = textToMultiSelect.run v o') ∧
    (∀ s, along textToRichText richTextToText (.string s) o o' = .ok (.string s)) ∧
    (∀ v, along selectToMultiSelect multiSelectToSelect v o o' = along selectToText textToSelect v p p') ∧
    (∀ v, ∃ name, selectToText.run v p = .ok (.string name) ∧
      along selectToMultiSelect multiSelectToText v o o' = .ok (.string (trim name))) ∧
    ∀ s, ',' ∉ s.toList → along textToSelect selectToMultiSelect (.string s) o o' =
      textToMultiSelect.run (.string s) .empty := by
  refine ⟨?_, ?_, ?_, ?_, ?_⟩
  · intro v
    exact along_richText v o o'
  · intro s
    show Except.ok (Json.string (Json.richText s).plainText) = _
    rw [Json.plainText_richText]
  · intro v
    exact along_multiSelect_select v o o' p p'
  · intro v
    exact ⟨v.choiceName, rfl, along_multiSelect_text v o o'⟩
  · intro s h
    exact along_select_multiSelect s o o' h

/-- A name between blanks, which both paths leave with one name. -/
theorem paths_agree_padded :
    let o : Options := ⟨[("separator", .bool true)]⟩
    ',' ∉ "\t a b\u00a0".toList ∧
      along textToSelect selectToMultiSelect (.string "\t a b\u00a0") o o =
        textToMultiSelect.run (.string "\t a b\u00a0") .empty ∧
      along textToSelect selectToMultiSelect (.string "\t a b\u00a0") o o = .ok (choices ["a b"]) := by
  intro o
  have hfree : ',' ∉ "\t a b\u00a0".toList := by decide
  exact ⟨hfree, (paths_agree o o o o).2.2.2.2 _ hfree, by rfl⟩

end Builtin

end FieldBridge
