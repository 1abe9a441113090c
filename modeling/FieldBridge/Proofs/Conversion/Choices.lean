import FieldBridge.Conversion.Builtin
import FieldBridge.Proofs.Text.Blank
import FieldBridge.Proofs.Text.Split

/-!
# Splitting and joining the options of a choice

Names that come out of splitting are in a normal form, and joining names in that form with
commas is undone by splitting at commas. So what was split once stays as it is.
-/

namespace FieldBridge

open Text

/-- The separator that options ask for. -/
inductive Separates : Options → String → Prop where
  | absent {o : Options} : o.get? "separator" = none → Separates o ","
  | empty {o : Options} : o.get? "separator" = some (.string "") → Separates o ","
  | text {o : Options} {separator : String} : separator ≠ "" →
      o.get? "separator" = some (.string separator) → Separates o separator

/-- A name as splitting gives it. -/
structure ChoiceName (separator name : String) : Prop where
  nonempty : name ≠ ""
  unpadded : Unpadded name.toList
  free : ¬separator.toList <:+: name.toList

def choices (names : List String) : Json := .array (names.map Json.choice)

/-- The pieces that are not blank, trimmed. -/
def namesOfPieces (pieces : List (List Char)) : List String :=
  (pieces.filter fun p => !p.all isBlank).map fun p => String.ofList (trimmed p)

/-- The names in a text, in their order there. -/
structure NamesIn (separator text : String) (names : List String) : Prop where
  inOrder : ∃ pieces, Cut separator.toList text.toList pieces ∧ names = namesOfPieces pieces
  normal : ∀ n ∈ names, ChoiceName separator n

theorem Separates.ne_nil {o : Options} {separator : String} (h : Separates o separator) : separator.toList ≠ [] := by
  cases h with
  | absent _ => decide
  | empty _ => decide
  | text hne _ => simpa using hne

namespace Builtin

section
variable {o : Options} {separator text : String}

theorem splitChoices_eq (h : Separates o separator) (text : String) :
    splitChoices text o = .ok (choices (namesOfPieces (pieces separator.toList text.toList))) := by
  have hnames : ((split separator text).map trim).filter (!·.isEmpty) =
      namesOfPieces (pieces separator.toList text.toList) := by
    rw [split, List.map_map, List.filter_map, namesOfPieces]
    have hblank : (fun s : String => !s.isEmpty) ∘ trim ∘ String.ofList = fun p => !p.all isBlank := by
      funext p
      simp [isEmpty_trim, isBlankText]
    have htrim : trim ∘ String.ofList = fun p => String.ofList (trimmed p) := by
      funext p
      simp [trim]
    rw [hblank, htrim]
  have hsplit : splitChoices text o = .ok (choices (((split separator text).map trim).filter (!·.isEmpty))) := by
    unfold splitChoices Options.text
    cases h with
    | absent hget => rw [hget]; rfl
    | empty hget => rw [hget]; rfl
    | text hne hget =>
      have hempty : separator.isEmpty = false := by simpa using hne
      rw [hget]
      simp only [bind, Except.bind, hempty]
      rfl
  rw [hsplit, hnames]

theorem choiceName_of_cut {ps : List (List Char)} (hsep : separator.toList ≠ [])
    (hcut : Cut separator.toList text.toList ps) : ∀ n ∈ namesOfPieces ps, ChoiceName separator n := by
  intro n hn
  obtain ⟨p, hp, rfl⟩ := List.mem_map.mp hn
  obtain ⟨hmem, hblank⟩ := List.mem_filter.mp hp
  have hne : trimmed p ≠ [] := by
    rw [ne_eq, trimmed_eq_nil_iff]
    simpa using hblank
  refine ⟨?_, ?_, ?_⟩
  · simpa using hne
  · simpa using unpadded_trimmed p
  · rw [String.toList_ofList]
    intro hin
    exact hcut.free hsep p hmem (hin.trans (trimmed_within p))

theorem namesIn_pieces (h : Separates o separator) (text : String) :
    NamesIn separator text (namesOfPieces (pieces separator.toList text.toList)) := by
  have hcut := cut_pieces h.ne_nil text.toList
  exact ⟨⟨_, hcut, rfl⟩, choiceName_of_cut h.ne_nil hcut⟩

end

/-! ## Names between commas -/

theorem namesOfPieces_append (ps qs : List (List Char)) :
    namesOfPieces (ps ++ qs) = namesOfPieces ps ++ namesOfPieces qs := by
  simp [namesOfPieces]

/-- A single name, or none if there are only blanks. -/
theorem namesOfPieces_comma_free {cs : List Char} (h : ',' ∉ cs) :
    namesOfPieces (pieces [','] cs) = if cs.all isBlank then [] else [String.ofList (trimmed cs)] := by
  rw [pieces_singleton, List.splitOn_eq_singleton h]
  by_cases hblank : cs.all isBlank = true
  · simp [namesOfPieces, hblank]
  · simp [namesOfPieces, hblank]

theorem namesOfPieces_comma (cs ds : List Char) : namesOfPieces (pieces [','] (cs ++ ',' :: ds)) =
    namesOfPieces (pieces [','] cs) ++ namesOfPieces (pieces [','] ds) := by
  simp only [pieces_singleton, List.splitOn_append_cons_self, namesOfPieces_append]

theorem namesOfPieces_space (cs : List Char) :
    namesOfPieces (pieces [','] (' ' :: cs)) = namesOfPieces (pieces [','] cs) := by
  have hprefix : ¬[','] <+: ' ' :: cs := by simp [List.cons_prefix_cons]
  have hblank : isBlank ' ' = true := by decide
  have hspace : ∀ c ∈ [' '], isBlank c = true := by simpa using hblank
  have htrim : ∀ p, trimmed (' ' :: p) = trimmed p := trimmed_append_left hspace
  rw [pieces_cons hprefix]
  cases pieces [','] cs with
  | nil => rfl
  | cons p ps =>
    rw [onFirst]
    simp [namesOfPieces, List.filter_cons, hblank, htrim, apply_ite]

theorem not_mem_of_choiceName {n : String} (h : ChoiceName "," n) : ',' ∉ n.toList := by
  intro hmem
  obtain ⟨before, after, hsplit⟩ := List.append_of_mem hmem
  apply h.free
  rw [hsplit]
  exact ⟨before, after, by simp⟩

theorem namesOfPieces_name {n : String} (h : ChoiceName "," n) : namesOfPieces (pieces [','] n.toList) = [n] := by
  have htrimmed := h.unpadded.trimmed
  have hblank : ¬n.toList.all isBlank = true := by
    rw [← trimmed_eq_nil_iff, htrimmed]
    simpa using h.nonempty
  rw [namesOfPieces_comma_free (not_mem_of_choiceName h), if_neg hblank, htrimmed, String.ofList_toList]

theorem namesOfPieces_join {names : List String} (h : ∀ n ∈ names, ChoiceName "," n) :
    namesOfPieces (pieces [','] (join ", " names).toList) = names := by
  induction names with
  | nil => rfl
  | cons n names ih =>
    have hn := h n List.mem_cons_self
    cases names with
    | nil => simpa [join] using namesOfPieces_name hn
    | cons m names =>
      have hrest := ih fun k hk => h k (List.mem_cons_of_mem _ hk)
      have htext : (join ", " (n :: m :: names)).toList =
          n.toList ++ ',' :: ' ' :: (join ", " (m :: names)).toList := by
        simp [join, String.intercalate_cons_cons]
      rw [htext, namesOfPieces_comma, namesOfPieces_name hn, namesOfPieces_space, hrest]
      rfl

theorem multiSelectToText_choices (names : List String) (o : Options) :
    multiSelectToText.run (choices names) o = .ok (.string (join ", " names)) := by
  have hname : Json.choiceName ∘ Json.choice = id := by
    funext n
    rfl
  show runMultiSelectToText (choices names) o = _
  rw [choices, runMultiSelectToText, List.map_map, hname, List.map_id]

theorem join_then_split {names : List String} {o' : Options} (o : Options) (h : Separates o' ",")
    (hnames : ∀ n ∈ names, ChoiceName "," n) :
    (multiSelectToText.run (choices names) o >>= fun text => textToMultiSelect.run text o') = .ok (choices names) := by
  rw [multiSelectToText_choices]
  show splitChoices (join ", " names) o' = _
  rw [splitChoices_eq h]
  exact congrArg (Except.ok ∘ choices) (namesOfPieces_join hnames)

/-- **Splitting and joining.** A text is split into names in normal form, in the order of the text.
Names in normal form are joined with commas and split again into themselves, and so a text that was
split, joined and split again gives what it gave at first. -/
theorem split_join_choices :
    (∀ (text : String) (o : Options) (separator : String), Separates o separator →
      ∃ names, textToMultiSelect.run (.string text) o = .ok (choices names) ∧ NamesIn separator text names) ∧
    (∀ (names : List String) (o o' : Options), Separates o' "," → (∀ n ∈ names, ChoiceName "," n) →
      (multiSelectToText.run (choices names) o >>= fun text => textToMultiSelect.run text o') =
        .ok (choices names)) ∧
    ∀ (text : String) (o o' o'' : Options), Separates o "," → Separates o'' "," →
      (textToMultiSelect.run (.string text) o >>= fun list => multiSelectToText.run list o' >>=
        fun text => textToMultiSelect.run text o'') = textToMultiSelect.run (.string text) o := by
  refine ⟨?_, ?_, ?_⟩
  · intro text o separator h
    exact ⟨_, splitChoices_eq h text, namesIn_pieces h text⟩
  · intro names o o' h hnames
    exact join_then_split o h hnames
  · intro text o o' o'' h h''
    have hfirst : textToMultiSelect.run (.string text) o = .ok (choices _) := splitChoices_eq h text
    rw [hfirst]
    exact join_then_split o' h'' (namesIn_pieces h text).normal

/-- A separator that overlaps itself, blanks of several kinds, and empty pieces. -/
theorem split_join_choices_overlapping :
    let o : Options := ⟨[("separator", .string "aa")]⟩
    let plain : Options := ⟨[("separator", .null)]⟩
    Separates o "aa" ∧ Separates plain "," ∧ Separates .empty "," ∧ (∀ n ∈ ["UI/UX", "W b"], ChoiceName "," n) ∧
      (∃ names, textToMultiSelect.run (.string "xaaa \u00a0aa\ty,z") o = .ok (choices names) ∧
        NamesIn "aa" "xaaa \u00a0aa\ty,z" names) ∧
      textToMultiSelect.run (.string "xaaa \u00a0aa\ty,z") o = .ok (choices ["x", "a", "y,z"]) ∧
      (multiSelectToText.run (choices ["UI/UX", "W b"]) .empty >>= fun text => textToMultiSelect.run text plain) =
        .ok (choices ["UI/UX", "W b"]) ∧
      (textToMultiSelect.run (.string " a,, b ") plain >>= fun list => multiSelectToText.run list o >>=
        fun text => textToMultiSelect.run text .empty) = textToMultiSelect.run (.string " a,, b ") plain := by
  intro o plain
  have ho : Separates o "aa" := .text (by decide) rfl
  have hplain : Separates plain "," := .absent rfl
  have hempty : Separates .empty "," := .absent rfl
  have hnames : ∀ n ∈ ["UI/UX", "W b"], ChoiceName "," n := by
    intro n hn
    rcases List.mem_cons.mp hn with rfl | hn
    · exact ⟨by decide, ⟨by simp [isBlank], by simp [isBlank]⟩, by decide⟩
    · rw [List.mem_singleton.mp hn]
      exact ⟨by decide, ⟨by simp [isBlank], by simp [isBlank]⟩, by decide⟩
  exact ⟨ho, hplain, hempty, hnames, split_join_choices.1 _ o "aa" ho, by rfl,
    split_join_choices.2.1 _ _ _ hplain hnames, split_join_choices.2.2 _ _ o _ hplain hempty⟩

end Builtin

end FieldBridge
