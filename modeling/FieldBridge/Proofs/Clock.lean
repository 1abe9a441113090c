import FieldBridge.Clock
import Mathlib.Data.List.Forall2
import Mathlib.Data.List.Nodup

/-!
# The course of time

A clock goes forward whatever it is used for. Elements that are looked at in one go fall
into those that pass the test and those that do not, each at its own time.
-/

namespace FieldBridge.Clock

/-- One clock at two times: it never shows less later, nor will its next look. -/
structure Precedes (k l : Clock) : Prop where
  now : k.now ≤ l.now
  next : k.look.now ≤ l.look.now

namespace Precedes
variable {k l m : Clock}

theorem refl (k : Clock) : k.Precedes k := ⟨Nat.le_refl _, Nat.le_refl _⟩

theorem trans (h : k.Precedes l) (h' : l.Precedes m) : k.Precedes m :=
  ⟨Nat.le_trans h.now h'.now, Nat.le_trans h.next h'.next⟩

end Precedes

theorem now_le_look (k : Clock) : k.now ≤ k.look.now := Nat.le_add_right _ _

theorem precedes_look (k : Clock) : k.Precedes k.look := ⟨k.now_le_look, k.look.now_le_look⟩

theorem precedes_wait (k : Clock) (nanoseconds : Nat) : k.Precedes (k.wait nanoseconds) where
  now := Nat.le_add_right _ _
  next := Nat.add_le_add_right (Nat.le_add_right _ _) _

/-! ## Looking at several elements -/

section
variable {α β : Type} (p : Nat → α → Bool) (k : Clock)

theorem go_cons_of_pos {p : Nat → α → Bool} {k : Clock} {place : Nat} {a : α} (h : p (k.moment place) a = true)
    (as : List α) : pick.go p k place (a :: as) = a :: pick.go p k (place + 1) as := if_pos h

theorem go_cons_of_neg {p : Nat → α → Bool} {k : Clock} {place : Nat} {a : α} (h : p (k.moment place) a = false)
    (as : List α) : pick.go p k place (a :: as) = pick.go p k (place + 1) as := if_neg (Bool.eq_false_iff.mp h)

theorem sublist_go (place : Nat) (as : List α) : (pick.go p k place as).Sublist as := by
  induction as generalizing place with
  | nil => exact .slnil
  | cons a as ih =>
    cases hp : p (k.moment place) a with
    | true =>
      rw [go_cons_of_pos hp]
      exact (ih (place + 1)).cons_cons a
    | false =>
      rw [go_cons_of_neg hp]
      exact (ih (place + 1)).cons a

theorem sublist_pick (as : List α) : (k.pick p as).Sublist as := sublist_go p k 0 as

theorem length_go_add (place : Nat) (as : List α) :
    (pick.go p k place as).length + (pick.go (fun now a => !p now a) k place as).length = as.length := by
  induction as generalizing place with
  | nil => rfl
  | cons a as ih =>
    have hrest := ih (place + 1)
    rw [List.length_cons, ← hrest]
    cases hp : p (k.moment place) a with
    | true =>
      rw [go_cons_of_pos hp, go_cons_of_neg (by rw [hp]; rfl), List.length_cons]
      omega
    | false =>
      rw [go_cons_of_neg hp, go_cons_of_pos (by rw [hp]; rfl), List.length_cons]
      omega

theorem length_pick_add (as : List α) :
    (k.pick p as).length + (k.pick (fun now a => !p now a) as).length = as.length := length_go_add p k 0 as

theorem filter_not_go {key : α → String} (place : Nat) {as : List α} (h : (as.map key).Nodup) :
    as.filter (fun a => !((pick.go p k place as).map key).contains (key a)) =
      pick.go (fun now a => !p now a) k place as := by
  induction as generalizing place with
  | nil => rfl
  | cons a as ih =>
    rw [List.map_cons, List.nodup_cons] at h
    have hrest := ih (place + 1) h.2
    cases hp : p (k.moment place) a with
    | true =>
      have hothers : ∀ b ∈ as, ((a :: pick.go p k (place + 1) as).map key).contains (key b) =
          ((pick.go p k (place + 1) as).map key).contains (key b) := by
        intro b hb
        have hne : key b ≠ key a := fun hba => h.1 (hba ▸ List.mem_map_of_mem hb)
        rw [List.map_cons, List.contains_cons, beq_eq_false_iff_ne.mpr hne, Bool.false_or]
      rw [go_cons_of_pos hp, go_cons_of_neg (by rw [hp]; rfl), List.filter_cons_of_neg (by simp), ← hrest]
      exact List.filter_congr fun b hb => by rw [hothers b hb]
    | false =>
      have habsent : key a ∉ (pick.go p k (place + 1) as).map key :=
        fun hin => h.1 (((sublist_go p k (place + 1) as).map key).subset hin)
      rw [go_cons_of_neg hp, go_cons_of_pos (by rw [hp]; rfl),
        List.filter_cons_of_pos (by simpa using habsent), hrest]

/-- Without the picked elements, told by their keys, those are left that do not pass. -/
theorem filter_not_picked {key : α → String} {as : List α} (h : (as.map key).Nodup) :
    as.filter (fun a => !((k.pick p as).map key).contains (key a)) = k.pick (fun now a => !p now a) as :=
  filter_not_go p k 0 h

theorem rel_go {R : α → β → Prop} {r : Nat → β → Bool} (hpr : ∀ now a b, R a b → p now a = r now b) (place : Nat)
    {as : List α} {bs : List β} (h : List.Forall₂ R as bs) :
    List.Forall₂ R (pick.go p k place as) (pick.go r k place bs) := by
  induction h generalizing place with
  | nil => exact .nil
  | @cons a b as bs hab _ ih =>
    have hrest := ih (place + 1)
    have hsame := hpr (k.moment place) a b hab
    cases hp : p (k.moment place) a with
    | true =>
      rw [go_cons_of_pos hp, go_cons_of_pos (hsame ▸ hp)]
      exact .cons hab hrest
    | false =>
      rw [go_cons_of_neg hp, go_cons_of_neg (hsame ▸ hp)]
      exact hrest

theorem rel_pick {R : α → β → Prop} {r : Nat → β → Bool} (hpr : ∀ now a b, R a b → p now a = r now b)
    {as : List α} {bs : List β} (h : List.Forall₂ R as bs) : List.Forall₂ R (k.pick p as) (k.pick r bs) :=
  rel_go p k hpr 0 h

end

end FieldBridge.Clock
