import FieldBridge.Proofs.Advice.Coverage
import FieldBridge.Proofs.Advice.Pairing
import Mathlib.Algebra.BigOperators.Group.List.Basic

/-!
# Whose lookups an analysis reports

No conversion is analyzed twice, so that counts kept under ids are read at most once each. For the
statistics of a cache the counts are all there is: every analysis reports the lookups made under
its own id, and nothing is shared out.
-/

namespace FieldBridge

/-! ## Sums over different ids -/

section
variable {α : Type} {ids : List String} (hn : ids.Nodup)
include hn

theorem sum_ite_le (key : String) (n : Nat) : (ids.map fun id => if key = id then n else 0).sum ≤ n := by
  induction ids with
  | nil => exact Nat.zero_le n
  | cons id ids ih =>
    obtain ⟨hfresh, hn⟩ := List.nodup_cons.mp hn
    rw [List.map_cons, List.sum_cons]
    by_cases hkey : key = id
    · have hrest : (ids.map fun id => if key = id then n else 0) = ids.map fun _ => 0 := by
        apply List.map_congr_left
        rintro other hother
        rw [if_neg]
        rintro rfl
        exact hfresh (hkey ▸ hother)
      rw [if_pos hkey, hrest]
      simp
    · simpa [hkey] using ih hn

theorem sum_find?_le (f : α → Nat) (m : Keyed α) :
    (ids.map fun id => ((Keyed.find? id m).map f).getD 0).sum ≤ Keyed.total f m := by
  induction m with
  | nil => simp [Keyed.find?]
  | cons p m ih =>
    -- an id takes the first value under it, and only one id takes that
    have hstep : ∀ id, ((Keyed.find? id (p :: m)).map f).getD 0 ≤
        (if p.1 = id then f p.2 else 0) + ((Keyed.find? id m).map f).getD 0 := by
      intro id
      rw [Keyed.find?]
      split <;> simp
    calc (ids.map fun id => ((Keyed.find? id (p :: m)).map f).getD 0).sum
        ≤ (ids.map fun id => (if p.1 = id then f p.2 else 0) + ((Keyed.find? id m).map f).getD 0).sum :=
          List.sum_le_sum fun id _ => hstep id
      _ = (ids.map fun id => if p.1 = id then f p.2 else 0).sum +
            (ids.map fun id => ((Keyed.find? id m).map f).getD 0).sum := List.sum_map_add
      _ ≤ f p.2 + Keyed.total f m := Nat.add_le_add (sum_ite_le hn _ _) ih

theorem sum_length_filter_le (key : α → String) (as : List α) :
    (ids.map fun id => (as.filter (key · == id)).length).sum ≤ as.length := by
  induction as with
  | nil => simp
  | cons a as ih =>
    have hstep : ∀ id, ((a :: as).filter (key · == id)).length =
        (if key a = id then 1 else 0) + (as.filter (key · == id)).length := by
      intro id
      by_cases hkey : key a = id
      · simp [hkey, Nat.add_comm]
      · simp [hkey]
    rw [List.map_congr_left fun id _ => hstep id, List.sum_map_add, List.length_cons, Nat.add_comm]
    exact Nat.add_le_add ih (sum_ite_le hn _ _)

end

/-! ## What is attributed -/

section
variable {c : Catalog} {results : List BenchmarkResult} {stats : CacheStats}

theorem conversion_analyses :
    (analyses c results stats).map (·.conversion) = (pairs results).map (·.1.conversion) := by
  rw [analyses, List.map_map]
  rfl

theorem nodup_analyses : ((analyses c results stats).map (·.conversion)).Nodup := by
  rw [conversion_analyses]
  exact nodup_ids_pairs results

theorem lookups_of_mem_analyses {a : Analysis} (h : a ∈ analyses c results stats) :
    ⟨a.hits, a.misses⟩ = Analysis.lookups a.conversion results stats := by
  obtain ⟨p, -, rfl⟩ := List.mem_map.mp h
  rfl

/-- The analyzed ids without a count of their own. -/
def sharers (c : Catalog) (results : List BenchmarkResult) (stats : CacheStats) : List String :=
  ((analyses c results stats).map (·.conversion)).filter fun id => !Keyed.contains id stats.byConversion

/-- What is read is read once, and the rest is shared out. -/
theorem sum_analyses_le (c : Catalog) (results : List BenchmarkResult) (stats : CacheStats)
    (part : Analysis → Nat) (f : Lookups → Nat) (hf : ∀ a, part a = f ⟨a.hits, a.misses⟩) :
    ((analyses c results stats).map part).sum ≤ Keyed.total f stats.byConversion +
      ((sharers c results stats).map fun id => f (Analysis.fallback id results stats)).sum := by
  have hpart : (analyses c results stats).map part =
      ((analyses c results stats).map (·.conversion)).map fun id => f (Analysis.lookups id results stats) := by
    rw [List.map_map]
    apply List.map_congr_left
    intro a ha
    rw [hf, lookups_of_mem_analyses ha]
    rfl
  have hread : ∀ id, f (Analysis.lookups id results stats) =
      ((Keyed.find? id stats.byConversion).map f).getD 0 +
        if (!Keyed.contains id stats.byConversion) = true then f (Analysis.fallback id results stats) else 0 := by
    intro id
    unfold Analysis.lookups Keyed.contains
    cases Keyed.find? id stats.byConversion <;> simp
  rw [hpart, List.map_congr_left fun id _ => hread id, List.sum_map_add, List.sum_map_ite]
  refine Nat.add_le_add (sum_find?_le nodup_analyses f _) ?_
  simp [sharers]

end

end FieldBridge
