import FieldBridge.Text.Blank
import Mathlib.Data.List.DropRight
import Mathlib.Data.List.TakeWhile

/-!
# Trimmed texts

Trimming takes the blanks away from both ends and nothing else. What is left is a part of
the text, and trimming it once more leaves it as it is.
-/

namespace FieldBridge.Text

/-- A text without blanks at its ends. -/
structure Unpadded (cs : List Char) : Prop where
  first : ∀ c ∈ cs.head?, isBlank c = false
  last : ∀ c ∈ cs.getLast?, isBlank c = false

variable {cs ws : List Char}

theorem trimmed_eq (cs : List Char) : trimmed cs = (cs.dropWhile isBlank).rdropWhile isBlank := rfl

theorem trimmed_within (cs : List Char) : trimmed cs <:+: cs :=
  (List.rdropWhile_prefix _ _).isInfix.trans (List.dropWhile_suffix _).isInfix

theorem trimmed_eq_nil_iff : trimmed cs = [] ↔ cs.all isBlank = true := by
  rw [trimmed_eq, List.rdropWhile_eq_nil_iff, List.all_eq_true]
  constructor
  · intro h
    by_cases hnil : cs.dropWhile isBlank = []
    · exact List.dropWhile_eq_nil_iff.mp hnil
    · have hfirst := List.dropWhile_get_zero_not isBlank cs (List.length_pos_iff.mpr hnil)
      exact absurd (h _ (List.get_mem _ _)) hfirst
  · intro h c hc
    exact h c ((List.dropWhile_suffix _).subset hc)

theorem Unpadded.dropWhile (h : Unpadded cs) : cs.dropWhile isBlank = cs := by
  cases cs with
  | nil => rfl
  | cons c cs => simp [h.first c rfl]

theorem rdropWhile_of_last (h : ∀ c ∈ cs.getLast?, isBlank c = false) : cs.rdropWhile isBlank = cs := by
  rw [List.rdropWhile_eq_self_iff]
  intro hne
  simpa using h _ (List.getLast?_eq_some_getLast hne)

theorem unpadded_of_eq (hfirst : cs.dropWhile isBlank = cs) (hlast : cs.rdropWhile isBlank = cs) : Unpadded cs := by
  constructor
  · intro c hc
    cases cs with
    | nil => simp at hc
    | cons d cs =>
      obtain rfl : d = c := by simpa using hc
      have hd := List.dropWhile_eq_self_iff.mp hfirst (Nat.succ_pos _)
      simpa using hd
  · intro c hc
    have hne : cs ≠ [] := by
      intro hnil
      simp [hnil] at hc
    obtain rfl : cs.getLast hne = c := by simpa [List.getLast?_eq_some_getLast hne] using hc
    simpa using List.rdropWhile_eq_self_iff.mp hlast hne

theorem unpadded_trimmed (cs : List Char) : Unpadded (trimmed cs) := by
  rw [trimmed_eq]
  apply unpadded_of_eq
  · generalize hds : cs.dropWhile isBlank = ds
    have hself : ds.dropWhile isBlank = ds := by rw [← hds, List.dropWhile_idempotent]
    obtain ⟨rest, hrest⟩ := List.rdropWhile_prefix isBlank ds
    cases hfront : ds.rdropWhile isBlank with
    | nil => rfl
    | cons d front =>
      rw [hfront] at hrest
      rw [← hrest] at hself
      have hd := List.dropWhile_eq_self_iff.mp hself (by simp)
      simp at hd
      simp [hd]
  · exact List.rdropWhile_idempotent _ _

theorem Unpadded.trimmed (h : Unpadded cs) : trimmed cs = cs := by
  rw [trimmed_eq, h.dropWhile, rdropWhile_of_last h.last]

theorem trimmed_trimmed (cs : List Char) : trimmed (trimmed cs) = trimmed cs := (unpadded_trimmed cs).trimmed

theorem trim_trim (s : String) : trim (trim s) = trim s := by
  simp only [trim, String.toList_ofList, trimmed_trimmed]

theorem isEmpty_trim (s : String) : (trim s).isEmpty = isBlankText s := by
  have hnil : trimmed s.toList = [] ↔ s.toList.all isBlank = true := trimmed_eq_nil_iff
  rw [Bool.eq_iff_iff]
  simp [trim, isBlankText, hnil]

/-! ## Blanks around a text -/

theorem trimmed_append_left (hws : ∀ c ∈ ws, isBlank c = true) (cs : List Char) : trimmed (ws ++ cs) = trimmed cs := by
  rw [trimmed_eq, List.dropWhile_append_of_pos hws, ← trimmed_eq]

theorem rdropWhile_append (hcs : ∀ c ∈ cs.getLast?, isBlank c = false) (hws : ∀ c ∈ ws, isBlank c = true) :
    (cs ++ ws).rdropWhile isBlank = cs := by
  have hreverse : ∀ c ∈ ws.reverse, isBlank c = true := fun c hc => hws c (List.mem_reverse.mp hc)
  rw [List.rdropWhile, List.reverse_append, List.dropWhile_append_of_pos hreverse]
  exact rdropWhile_of_last hcs

theorem Unpadded.trimmed_append (h : Unpadded cs) (hws : ∀ c ∈ ws, isBlank c = true) :
    Text.trimmed (cs ++ ws) = cs := by
  cases cs with
  | nil => simpa [trimmed_eq_nil_iff] using hws
  | cons c cs =>
    have hfirst : (c :: cs ++ ws).dropWhile isBlank = c :: cs ++ ws := by simp [h.first c rfl]
    rw [trimmed_eq, hfirst, rdropWhile_append h.last hws]

end FieldBridge.Text
