import FieldBridge.Conversion.Builtin.Text
import Mathlib.Data.List.TakeWhile

/-!
# Markup without its tags

A tag goes from an opening bracket to the next closing one. One pass from left to right
deletes them all: an opening bracket that is kept had no closing bracket behind it before
the pass, so it has none afterwards, and a second pass finds nothing to delete.
-/

namespace FieldBridge

namespace Text

/-- An opening bracket and all up to the next closing one. -/
def IsTag (cs : List Char) : Prop := ∃ body, '>' ∉ body ∧ cs = '<' :: (body ++ ['>'])

/-- No opening bracket has a closing one somewhere behind it. -/
def TagFree (cs : List Char) : Prop := ∀ before after, cs = before ++ '<' :: after → '>' ∉ after

/-- A text and what is left of it when whole tags are deleted and all other characters are kept. An
opening bracket is kept only where no tag begins. -/
inductive Strips : List Char → List Char → Prop where
  | nil : Strips [] []
  | keep {c : Char} {cs ds : List Char} : ¬(c = '<' ∧ '>' ∈ cs) → Strips cs ds → Strips (c :: cs) (c :: ds)
  | delete {tag cs ds : List Char} : IsTag tag → Strips cs ds → Strips (tag ++ cs) ds

variable {c : Char} {cs ds : List Char}

/-! ## One pass -/

theorem exists_tag (h : '>' ∈ cs) : ∃ tag, IsTag tag ∧ '<' :: cs = tag ++ (cs.dropWhile (· != '>')).drop 1 := by
  have hbody : '>' ∉ cs.takeWhile (· != '>') := fun hmem => by simpa using List.mem_takeWhile_imp hmem
  refine ⟨_, ⟨_, hbody, rfl⟩, ?_⟩
  have hcut : cs.takeWhile (· != '>') ++ cs.dropWhile (· != '>') = cs := List.takeWhile_append_dropWhile
  cases hrest : cs.dropWhile (· != '>') with
  | nil =>
    have hnone : '>' ≠ '>' := by simpa using List.dropWhile_eq_nil_iff.mp hrest '>' h
    exact absurd rfl hnone
  | cons d rest =>
    have hclose : d = '>' := by
      have hd := List.dropWhile_get_zero_not (· != '>') cs (by simp [hrest])
      simpa [hrest] using hd
    subst hclose
    rw [hrest] at hcut
    simp [hcut]

theorem strips_withoutTags (cs : List Char) : Strips cs (withoutTags cs) := by
  induction cs using withoutTags.induct with
  | case1 =>
    rw [withoutTags]
    exact .nil
  | case2 c cs h ih =>
    obtain ⟨rfl, hclose⟩ := h
    obtain ⟨tag, htag, hcut⟩ := exists_tag hclose
    rw [withoutTags, if_pos ⟨rfl, hclose⟩, hcut]
    exact .delete htag ih
  | case3 c cs h ih =>
    rw [withoutTags, if_neg h]
    exact .keep h ih

/-! ## What is left -/

theorem tagFree_nil : TagFree [] := by
  intro before after h
  simp at h

theorem tagFree_cons : TagFree (c :: cs) ↔ ¬(c = '<' ∧ '>' ∈ cs) ∧ TagFree cs := by
  constructor
  · intro h
    refine ⟨?_, ?_⟩
    · rintro ⟨rfl, hclose⟩
      exact h [] cs rfl hclose
    · intro before after hcs
      exact h (c :: before) after (by rw [hcs, List.cons_append])
  · rintro ⟨hc, h⟩ before after hcs
    cases before with
    | nil =>
      obtain ⟨rfl, rfl⟩ := List.cons.inj hcs
      exact fun hclose => hc ⟨rfl, hclose⟩
    | cons b before => exact h before after (List.cons.inj hcs).2

theorem IsTag.not_tagFree (h : IsTag ds) (cs : List Char) : ¬TagFree (ds ++ cs) := by
  obtain ⟨body, -, rfl⟩ := h
  intro hfree
  exact hfree [] (body ++ ['>'] ++ cs) (by simp) (by simp)

theorem Strips.sublist (h : Strips cs ds) : ds.Sublist cs := by
  induction h with
  | nil => exact List.Sublist.refl _
  | keep _ _ ih => exact ih.cons_cons _
  | delete _ _ ih => exact ih.trans (List.sublist_append_right _ _)

/-- Nothing behind a bracket that is kept can close it. -/
theorem Strips.tagFree (h : Strips cs ds) : TagFree ds := by
  induction h with
  | nil => exact tagFree_nil
  | keep hc hrest ih => exact tagFree_cons.mpr ⟨fun hopen => hc ⟨hopen.1, hrest.sublist.subset hopen.2⟩, ih⟩
  | delete _ _ ih => exact ih

theorem Strips.eq_iff (h : Strips cs ds) : ds = cs ↔ TagFree cs := by
  constructor
  · rintro rfl
    exact h.tagFree
  · intro hfree
    induction h with
    | nil => rfl
    | keep _ _ ih => rw [ih (tagFree_cons.mp hfree).2]
    | delete htag _ _ => exact absurd hfree (htag.not_tagFree _)

theorem withoutTags_withoutTags (cs : List Char) : withoutTags (withoutTags cs) = withoutTags cs :=
  (strips_withoutTags _).eq_iff.mpr (strips_withoutTags cs).tagFree

end Text

namespace Builtin

/-- **Markup is stripped of its tags for good.** What is left of a text is the text without its tags,
has no tag in it, is the text itself exactly when that has none, and is left as it is from then on. -/
theorem richTextToText_strips (s : String) (o : Options) : ∃ t : String,
    richTextToText.run (.string s) o = .ok (.string t) ∧ Text.Strips s.toList t.toList ∧ Text.TagFree t.toList ∧
      (t = s ↔ Text.TagFree s.toList) ∧ ∀ o', richTextToText.run (.string t) o' = .ok (.string t) := by
  have hstrips := Text.strips_withoutTags s.toList
  refine ⟨String.ofList (Text.withoutTags s.toList), rfl, ?_, ?_, ?_, ?_⟩
  · rwa [String.toList_ofList]
  · rw [String.toList_ofList]
    exact hstrips.tagFree
  · rw [← hstrips.eq_iff, ← String.toList_inj, String.toList_ofList]
  · intro o'
    show Except.ok (Json.string (String.ofList (Text.withoutTags (String.ofList _).toList))) = _
    rw [String.toList_ofList, Text.withoutTags_withoutTags]

/-- A bracket that stands for itself is taken for the start of a tag if one closes later. -/
example : richTextToText.run (.string "<p\n>1 < 2</p> 3 < 4") .empty = .ok (.string "1  3 < 4") := by cbv

end Builtin

end FieldBridge
