import FieldBridge.Proofs.Cache.Accounting

/-!
# Lookups between two states of a cache

What a piece of work adds to the counters. Work under one id leaves the counters of all
other ids alone, and the counts of two pieces of work add up.
-/

namespace FieldBridge

namespace Lookups

def plus (l m : Lookups) : Lookups := ⟨l.hits + m.hits, l.misses + m.misses⟩

theorem plus_assoc (l m n : Lookups) : (l.plus m).plus n = l.plus (m.plus n) := by
  simp [plus, Nat.add_assoc]

theorem total_plus (l m : Lookups) : (l.plus m).total = l.total + m.total := by
  simp only [plus, total]
  omega

theorem total_record (l : Lookups) (hit : Bool) : (l.record hit).total = l.total + 1 := by
  cases hit with
  | false => rfl
  | true => simp [record, total, Nat.add_right_comm]

theorem record_eq_plus (l : Lookups) (hit : Bool) : l.record hit = l.plus (record {} hit) := by
  cases hit <;> rfl

end Lookups

def Cache.lookupsOf (c : Cache) (id : String) : Lookups := (Keyed.find? id c.byConversion).getD {}

theorem Accounts.lookupsOf_eq_zero {c : Cache} {log : List Lookup} (h : Accounts c log) (hhits : c.stats.hits = 0)
    (hmisses : c.stats.misses = 0) (id : String) : c.lookupsOf id = {} := by
  have hlog : log = [] := by
    rw [List.eq_nil_iff_forall_not_mem]
    intro l hl
    have hhit := List.countP_eq_zero.mp (h.hits.symm.trans hhits) l hl
    have hmiss := List.countP_eq_zero.mp (h.misses.symm.trans hmisses) l hl
    cases hb : l.hit <;> simp [hb] at hhit hmiss
  have heach := h.each id
  rw [hlog] at heach
  exact heach

/-- Between two states these lookups were counted, all of them under one id. -/
structure Counted (id : String) (l : Lookups) (before after : Cache) : Prop where
  global : after.counters = before.counters.plus l
  own : after.lookupsOf id = (before.lookupsOf id).plus l
  others : ∀ other, other ≠ id → Keyed.find? other after.byConversion = Keyed.find? other before.byConversion

namespace Counted
variable {id : String} {l m : Lookups} {a b c : Cache}

theorem refl (id : String) (c : Cache) : Counted id {} c c := ⟨rfl, rfl, fun _ _ => rfl⟩

theorem congr (h : Counted id l a b) {a' b' : Cache} (ha : a'.books = a.books) (hb : b'.books = b.books) :
    Counted id l a' b' := by
  simp only [Cache.books, Prod.mk.injEq] at ha hb
  obtain ⟨hglobal, hown, hothers⟩ := h
  simp only [Cache.lookupsOf] at hown
  refine ⟨?_, ?_, ?_⟩
  · rw [ha.1, hb.1, hglobal]
  · rw [Cache.lookupsOf, Cache.lookupsOf, ha.2, hb.2, hown]
  · intro other hother
    rw [ha.2, hb.2, hothers other hother]

theorem record (id : String) (hit : Bool) (c : Cache) :
    Counted id (Lookups.record {} hit) c (c.record id hit) := by
  refine ⟨?_, ?_, ?_⟩
  · exact Lookups.record_eq_plus _ _
  · simp only [Cache.lookupsOf, Cache.record, Keyed.find?_insert, if_true, Option.getD_some]
    exact Lookups.record_eq_plus _ _
  · intro other hother
    simp [Cache.record, Keyed.find?_insert, Ne.symm hother]

theorem trans (h : Counted id l a b) (h' : Counted id m b c) : Counted id (l.plus m) a c := by
  refine ⟨?_, ?_, ?_⟩
  · rw [h'.global, h.global, Lookups.plus_assoc]
  · rw [h'.own, h.own, Lookups.plus_assoc]
  · intro other hother
    rw [h'.others other hother, h.others other hother]

theorem getOrCompute {ε : Type} (c : Cache) (id : String) (v : Json) (o : Options)
    (compute : Unit → Except ε Json) :
    Counted id (Lookups.record {} (c.get id v o).1.isSome) c (c.getOrCompute id v o compute).2 :=
  (record id _ c).congr rfl ((c.books_getOrCompute id v o compute).trans (c.books_get id v o))

end Counted

end FieldBridge
