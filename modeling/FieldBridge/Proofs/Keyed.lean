import FieldBridge.Keyed
import Mathlib.Order.Basic

/-!
# Keyed lists as finite maps

A keyed list that is sorted is determined by what is found in it. Putting a value
under a key keeps the order and changes what is found under that key alone.
-/

namespace FieldBridge.Keyed

variable {α β : Type}

/-- Keys stand in increasing order, so that none stands twice. -/
def Sorted (m : Keyed α) : Prop := m.Pairwise fun p q => p.1 < q.1

theorem eq_or_lt_or_gt (a b : String) : a = b ∨ a < b ∨ b < a := by
  by_cases h : a < b
  · exact Or.inr (Or.inl h)
  · by_cases h' : b < a
    · exact Or.inr (Or.inr h')
    · exact Or.inl (Std.le_antisymm h' h)

theorem find?_eq_none_of_lt {key : String} {m : Keyed α} (h : ∀ p ∈ m, key < p.1) : find? key m = none := by
  induction m with
  | nil => rfl
  | cons p m ih =>
    have hne : p.1 ≠ key := fun e => String.lt_irrefl key (e ▸ h p (List.mem_cons_self ..))
    rw [find?, if_neg hne]
    exact ih fun q hq => h q (List.mem_cons_of_mem _ hq)

theorem find?_eq_none_of_lt_head {key : String} {p : String × α} {m : Keyed α} (hm : Sorted (p :: m))
    (h : key < p.1) : find? key (p :: m) = none := by
  refine find?_eq_none_of_lt fun q hq => ?_
  rcases List.mem_cons.mp hq with rfl | hq
  · exact h
  · exact String.lt_trans h ((List.pairwise_cons.mp hm).1 q hq)

theorem mem_of_find? {key : String} {v : α} {m : Keyed α} (h : find? key m = some v) : (key, v) ∈ m := by
  induction m with
  | nil => cases h
  | cons p m ih =>
    rw [find?] at h
    split at h
    · rename_i hk
      obtain rfl := Option.some.inj h
      exact hk ▸ List.mem_cons_self ..
    · exact List.mem_cons_of_mem _ (ih h)

theorem find?_isSome {key : String} {m : Keyed α} : (find? key m).isSome = true ↔ key ∈ m.map (·.1) := by
  induction m with
  | nil => simp [find?]
  | cons p m ih =>
    rw [find?]
    by_cases h : p.1 = key
    · simp [h]
    · rw [if_neg h, ih]
      simp [Ne.symm h]

/-- **A sorted list is determined by what is found in it.** -/
theorem ext {m n : Keyed α} (hm : Sorted m) (hn : Sorted n) (h : ∀ key, find? key m = find? key n) : m = n := by
  induction m generalizing n with
  | nil =>
    cases n with
    | nil => rfl
    | cons q n => simpa [find?] using h q.1
  | cons p m ih =>
    cases n with
    | nil => simpa [find?] using h p.1
    | cons q n =>
      have hp := List.pairwise_cons.mp hm
      have hq := List.pairwise_cons.mp hn
      have hkey : p.1 = q.1 := by
        rcases eq_or_lt_or_gt p.1 q.1 with e | hlt | hlt
        · exact e
        · have := h p.1
          rw [find?_eq_none_of_lt_head hn hlt] at this
          simp [find?] at this
        · have := h q.1
          rw [find?_eq_none_of_lt_head hm hlt] at this
          simp [find?] at this
      have hval : p.2 = q.2 := by
        have := h p.1
        simpa [find?, hkey] using this
      rw [show p = q from Prod.ext hkey hval]
      rw [ih hp.2 hq.2 fun key => ?_]
      by_cases hk : p.1 = key
      · subst hk
        rw [find?_eq_none_of_lt hp.1, hkey, find?_eq_none_of_lt hq.1]
      · have := h key
        rwa [find?, find?, if_neg hk, if_neg (hkey ▸ hk)] at this

/-! ## Putting values -/

theorem find?_insert (k key : String) (v : α) (m : Keyed α) :
    find? k (insert key v m) = if key = k then some v else find? k m := by
  induction m with
  | nil => rfl
  | cons p m ih =>
    unfold insert
    split
    · rename_i h
      by_cases hk : key = k
      · simp [find?, hk]
      · simp [find?, hk, h ▸ hk]
    · split
      · rw [find?]
      · rename_i h _
        rw [find?, ih, find?]
        by_cases hk : p.1 = k
        · simp [hk, show key ≠ k from fun e => h (e.trans hk.symm)]
        · simp [hk]

theorem key_of_mem_insert {key : String} {v : α} {m : Keyed α} {p : String × α} (h : p ∈ insert key v m) :
    p.1 = key ∨ p ∈ m := by
  induction m with
  | nil => simp_all [insert]
  | cons q m ih =>
    unfold insert at h
    split at h
    · rcases List.mem_cons.mp h with rfl | h
      · exact Or.inl rfl
      · exact Or.inr (List.mem_cons_of_mem _ h)
    · split at h
      · rcases List.mem_cons.mp h with rfl | h
        · exact Or.inl rfl
        · exact Or.inr h
      · rcases List.mem_cons.mp h with rfl | h
        · exact Or.inr (List.mem_cons_self ..)
        · exact (ih h).imp_right (List.mem_cons_of_mem _)

theorem sorted_insert (key : String) (v : α) {m : Keyed α} (hm : Sorted m) : Sorted (insert key v m) := by
  induction m with
  | nil => exact List.pairwise_singleton _ _
  | cons p m ih =>
    have hp := List.pairwise_cons.mp hm
    unfold insert
    split
    · rename_i h
      exact List.pairwise_cons.mpr ⟨fun q hq => h ▸ hp.1 q hq, hp.2⟩
    · split
      · rename_i _ h
        refine List.pairwise_cons.mpr ⟨fun q hq => ?_, hm⟩
        rcases List.mem_cons.mp hq with rfl | hq
        · exact h
        · exact String.lt_trans h (hp.1 q hq)
      · rename_i h h'
        refine List.pairwise_cons.mpr ⟨fun q hq => ?_, ih hp.2⟩
        rcases key_of_mem_insert hq with e | hq
        · rcases eq_or_lt_or_gt key p.1 with e' | hlt | hlt
          · exact absurd e' h
          · exact absurd hlt h'
          · exact e ▸ hlt
        · exact hp.1 q hq

/-- Putting a value when there is none is putting it, where there is none. -/
theorem insertAbsent_eq (key : String) (v : α) {m : Keyed α} (hm : Sorted m) :
    insertAbsent key v m = if (find? key m).isSome then m else insert key v m := by
  induction m with
  | nil => rfl
  | cons p m ih =>
    have hp := List.pairwise_cons.mp hm
    unfold insertAbsent insert
    by_cases h : key = p.1
    · rw [if_pos h, find?, if_pos h.symm]
      rfl
    · rw [if_neg h, if_neg h]
      by_cases hlt : key < p.1
      · rw [if_pos hlt, if_pos hlt, find?_eq_none_of_lt_head hm hlt]
        rfl
      · rw [if_neg hlt, if_neg hlt, find?, if_neg (Ne.symm h), ih hp.2]
        split <;> rfl

theorem sorted_insertAbsent (key : String) (v : α) {m : Keyed α} (hm : Sorted m) : Sorted (insertAbsent key v m) := by
  rw [insertAbsent_eq key v hm]
  split
  · exact hm
  · exact sorted_insert key v hm

theorem find?_insertAbsent (k key : String) (v : α) {m : Keyed α} (hm : Sorted m) :
    find? k (insertAbsent key v m) = (find? k m).or (if key = k then some v else none) := by
  rw [insertAbsent_eq key v hm]
  by_cases hk : key = k
  · subst hk
    cases h : find? key m with
    | none => simp [find?_insert]
    | some w => simp [h]
  · rw [if_neg hk, Option.or_none]
    split
    · rfl
    · rw [find?_insert, if_neg hk]

/-! ## Totals -/

def total (f : α → Nat) (m : Keyed α) : Nat := m.foldr (fun p n => f p.2 + n) 0

/-- A value counts in place of the one it replaces. -/
theorem total_insert (f : α → Nat) (key : String) (v : α) {m : Keyed α} (hm : Sorted m) :
    total f (insert key v m) + ((find? key m).map f).getD 0 = total f m + f v := by
  induction m with
  | nil => simp [total, insert, find?]
  | cons p m ih =>
    have hp := List.pairwise_cons.mp hm
    unfold insert
    split
    · rename_i h
      simp only [total, List.foldr_cons, find?, h, if_pos, Option.map_some, Option.getD_some]
      omega
    · split
      · rename_i _ hlt
        simp only [total, List.foldr_cons, find?_eq_none_of_lt_head hm hlt, Option.map_none, Option.getD_none]
        omega
      · rename_i h _
        have := ih hp.2
        rw [find?, if_neg (Ne.symm h)]
        simp only [total, List.foldr_cons] at this ⊢
        omega

end FieldBridge.Keyed
