import FieldBridge.Text.Split
import Mathlib.Data.List.Infix

/-!
# Cutting texts at a separator

A text is cut at the leftmost places of a separator: no piece has the separator in it, not
even together with the start of the one behind it. Joining the pieces gives the text back.
-/

namespace FieldBridge.Text

/-- The pieces of a text between the leftmost places of a separator. -/
inductive Cut (sep : List Char) : List Char → List (List Char) → Prop where
  | last {cs : List Char} : ¬sep <:+: cs → Cut sep cs [cs]
  | more {piece cs : List Char} {rest : List (List Char)} : ¬sep <:+: (piece ++ sep).dropLast → Cut sep cs rest →
      Cut sep (piece ++ sep ++ cs) (piece :: rest)

section
variable {sep cs : List Char} {ps : List (List Char)}

/-! ## Pieces -/

theorem piecesFrom_eq (sep : List Char) (k : Nat) (cs : List Char) : piecesFrom sep k cs = pieces sep (cs.drop k) := by
  induction cs generalizing k with
  | nil => cases k <;> rfl
  | cons c cs ih =>
    cases k with
    | zero => rfl
    | succ k => exact ih k

theorem pieces_append (hsep : sep ≠ []) (cs : List Char) : pieces sep (sep ++ cs) = [] :: pieces sep cs := by
  cases sep with
  | nil => exact absurd rfl hsep
  | cons s sep =>
    have hprefix : (s :: sep).isPrefixOf (s :: (sep ++ cs)) = true := by
      rw [List.isPrefixOf_iff_prefix]
      exact ⟨cs, rfl⟩
    rw [pieces, List.cons_append, piecesFrom, if_pos hprefix, piecesFrom_eq]
    simp

theorem pieces_cons {c : Char} (h : ¬sep <+: c :: cs) : pieces sep (c :: cs) = onFirst c (pieces sep cs) := by
  have hprefix : sep.isPrefixOf (c :: cs) = false := by
    rw [← Bool.not_eq_true, List.isPrefixOf_iff_prefix]
    exact h
  rw [pieces, piecesFrom, hprefix]
  rfl

/-- Induction along a text: the separator is passed over at once. -/
theorem piecesInduct {motive : List Char → Prop} (hsep : sep ≠ []) (nil : motive [])
    (found : ∀ cs, motive cs → motive (sep ++ cs)) (cons : ∀ c cs, ¬sep <+: c :: cs → motive cs → motive (c :: cs))
    (cs : List Char) : motive cs := by
  induction hn : cs.length using Nat.strongRecOn generalizing cs with
  | _ n ih =>
    subst hn
    by_cases hprefix : sep <+: cs
    · obtain ⟨rest, rfl⟩ := hprefix
      have hpos := List.length_pos_iff.mpr hsep
      apply found
      apply ih rest.length _ rest rfl
      rw [List.length_append]
      omega
    · cases cs with
      | nil => exact nil
      | cons c cs => exact cons c cs hprefix (ih cs.length (by simp) cs rfl)

theorem Cut.cons {c : Char} (hcut : Cut sep cs ps) (hsep : sep ≠ []) (h : ¬sep <+: c :: cs) :
    Cut sep (c :: cs) (onFirst c ps) := by
  cases hcut with
  | last hfree =>
    apply Cut.last
    rw [List.infix_cons_iff]
    exact fun hin => hin.elim h hfree
  | @more piece cs rest hfree hrest =>
    have hne : piece ++ sep ≠ [] := by simp [hsep]
    refine @Cut.more sep (c :: piece) cs rest ?_ hrest
    rw [List.cons_append, List.dropLast_cons_of_ne_nil hne, List.infix_cons_iff]
    intro hin
    rcases hin with hin | hin
    · apply h
      have hcut : c :: (piece ++ sep).dropLast <+: c :: (piece ++ sep ++ cs) := by
        rw [List.cons_prefix_cons]
        exact ⟨rfl, (List.dropLast_prefix _).trans (List.prefix_append _ _)⟩
      exact hin.trans hcut
    · exact hfree hin

/-- **A text is cut at the leftmost places of the separator.** -/
theorem cut_pieces (hsep : sep ≠ []) (cs : List Char) : Cut sep cs (pieces sep cs) := by
  induction cs using piecesInduct hsep with
  | nil =>
    apply Cut.last
    rw [List.infix_nil]
    exact hsep
  | found cs ih =>
    rw [pieces_append hsep]
    refine @Cut.more sep [] cs _ ?_ ih
    intro hin
    have hlen := hin.length_le
    have hpos := List.length_pos_iff.mpr hsep
    simp at hlen
    omega
  | cons c cs h ih =>
    rw [pieces_cons h]
    exact ih.cons hsep h

/-! ## What a cut says -/

theorem Cut.free (h : Cut sep cs ps) (hsep : sep ≠ []) : ∀ p ∈ ps, ¬sep <:+: p := by
  induction h with
  | last hfree => simpa using hfree
  | @more piece cs rest hfree _ ih =>
    intro p hp hin
    rcases List.mem_cons.mp hp with rfl | hp
    · rw [List.dropLast_append_of_ne_nil hsep] at hfree
      exact hfree (hin.trans (List.prefix_append _ _).isInfix)
    · exact ih p hp hin

end

/-! ## One character as the separator -/

theorem pieces_singleton (d : Char) (cs : List Char) : pieces [d] cs = cs.splitOn d := by
  have hfirst : ∀ (c : Char) (l : List (List Char)), l ≠ [] → onFirst c l = l.modifyHead (List.cons c) := by
    intro c l hl
    cases l with
    | nil => exact absurd rfl hl
    | cons piece rest => rfl
  induction cs with
  | nil => rfl
  | cons c cs ih =>
    rw [List.splitOn_cons_eq_if_modifyHead]
    by_cases hc : c = d
    · subst hc
      rw [← ih, if_pos (by simp)]
      exact pieces_append (List.cons_ne_nil c []) cs
    · have hprefix : ¬[d] <+: c :: cs := by
        rw [List.cons_prefix_cons]
        exact fun h => hc h.1.symm
      rw [pieces_cons hprefix, ih, if_neg (by simpa using hc), hfirst c _ (List.splitOn_ne_nil _ _)]

end FieldBridge.Text
