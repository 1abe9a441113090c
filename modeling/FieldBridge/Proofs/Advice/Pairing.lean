import FieldBridge.Advice.Basic
import Mathlib.Data.List.Basic
import Mathlib.Data.List.Induction

/-!
# Which results are compared

A conversion is looked at when it has a result past the cache and one through it, and then the
first of each counts. The conversions stand in the order in which their first results do, none of
them twice, and results of a kind that was seen before change nothing.
-/

namespace FieldBridge

/-! ## Members without repetition -/

section
variable {ids more : List String} {id : String}

theorem distinct_concat (ids : List String) (id : String) :
    distinct (ids ++ [id]) = if (distinct ids).contains id then distinct ids else distinct ids ++ [id] := by
  unfold distinct
  rw [List.foldl_append]
  rfl

theorem mem_distinct : id ∈ distinct ids ↔ id ∈ ids := by
  induction ids using List.reverseRecOn with
  | nil => rfl
  | append_singleton ids last ih =>
    rw [distinct_concat]
    split
    · rename_i hseen
      rw [List.contains_iff_mem] at hseen
      rw [ih, List.mem_append, List.mem_singleton, iff_self_or]
      rintro rfl
      exact ih.mp hseen
    · rw [List.mem_append, List.mem_append, ih]

theorem distinct_concat_of_mem (h : id ∈ ids) : distinct (ids ++ [id]) = distinct ids := by
  rw [distinct_concat, if_pos (List.contains_iff_mem.mpr (mem_distinct.mpr h))]

theorem distinct_concat_of_notMem (h : id ∉ ids) : distinct (ids ++ [id]) = distinct ids ++ [id] := by
  rw [distinct_concat, if_neg fun hc => h (mem_distinct.mp (List.contains_iff_mem.mp hc))]

theorem distinct_append (h : ∀ id ∈ more, id ∈ ids) : distinct (ids ++ more) = distinct ids := by
  induction more using List.reverseRecOn with
  | nil => rw [List.append_nil]
  | append_singleton more id ih =>
    have hmem : id ∈ ids ++ more := List.mem_append_left _ (h id (by simp))
    rw [← List.append_assoc, distinct_concat_of_mem hmem, ih fun i hi => h i (List.mem_append_left _ hi)]

/-- Members are listed in the order in which they come first, so that none is listed twice. -/
theorem pairwise_distinct (ids : List String) : (distinct ids).Pairwise fun i j => ids.idxOf i < ids.idxOf j := by
  induction ids using List.reverseRecOn with
  | nil => exact .nil
  | append_singleton ids id ih =>
    have hbefore : (distinct ids).Pairwise fun i j => (ids ++ [id]).idxOf i < (ids ++ [id]).idxOf j := by
      refine ih.imp_of_mem ?_
      intro i j hi hj hlt
      rwa [List.idxOf_append_of_mem (mem_distinct.mp hi), List.idxOf_append_of_mem (mem_distinct.mp hj)]
    by_cases hid : id ∈ ids
    · rwa [distinct_concat_of_mem hid]
    · rw [distinct_concat_of_notMem hid, List.pairwise_append]
      refine ⟨hbefore, List.pairwise_singleton _ _, ?_⟩
      intro i hi j hj
      obtain rfl := List.mem_singleton.mp hj
      rw [List.idxOf_append_of_mem (mem_distinct.mp hi), List.idxOf_append_of_notMem hid]
      exact Nat.lt_of_lt_of_le (List.idxOf_lt_length_of_mem (mem_distinct.mp hi)) (Nat.le_add_right _ _)

theorem nodup_distinct (ids : List String) : (distinct ids).Nodup := by
  refine (pairwise_distinct ids).imp ?_
  rintro i j hlt rfl
  exact absurd hlt (Nat.lt_irrefl _)

end

/-! ## First results -/

/-- The first result of a conversion, of those past the cache or of those through it. -/
structure IsFirst (results : List BenchmarkResult) (id : String) (cached : Bool) (r : BenchmarkResult) : Prop where
  conversion : r.conversion = id
  mode : r.cached = cached
  none_before : ∃ before after, results = before ++ r :: after ∧ ∀ s ∈ before, s.conversion = id → s.cached ≠ cached

def hasRun (results : List BenchmarkResult) (id : String) (cached : Bool) : Bool :=
  results.any fun r => r.conversion == id && r.cached == cached

section
variable {results more : List BenchmarkResult} {id : String} {cached : Bool} {r : BenchmarkResult}

theorem find?_iff_isFirst :
    (results.find? fun r => r.conversion == id && r.cached == cached) = some r ↔ IsFirst results id cached r := by
  rw [List.find?_eq_some_iff_append]
  simp only [Bool.and_eq_true, beq_iff_eq, Bool.not_eq_true', Bool.and_eq_false_imp, beq_eq_false_iff_ne]
  constructor
  · rintro ⟨⟨hid, hmode⟩, before, after, heq, hnone⟩
    exact ⟨hid, hmode, before, after, heq, hnone⟩
  · rintro ⟨hid, hmode, before, after, heq, hnone⟩
    exact ⟨⟨hid, hmode⟩, before, after, heq, hnone⟩

theorem hasRun_iff : hasRun results id cached = true ↔ ∃ r ∈ results, r.conversion = id ∧ r.cached = cached := by
  simp [hasRun]

theorem isSome_find?_eq (results : List BenchmarkResult) (id : String) (cached : Bool) :
    (results.find? fun r => r.conversion == id && r.cached == cached).isSome = hasRun results id cached :=
  List.isSome_find? ..

theorem find?_append_of_known (h : ∀ m ∈ more, hasRun results m.conversion m.cached = true) (id : String)
    (cached : Bool) : ((results ++ more).find? fun r => r.conversion == id && r.cached == cached) =
      results.find? fun r => r.conversion == id && r.cached == cached := by
  rw [List.find?_append]
  by_cases hrun : hasRun results id cached = true
  · rw [← isSome_find?_eq] at hrun
    exact Option.or_of_isSome hrun
  · have hmore : (more.find? fun r => r.conversion == id && r.cached == cached) = none := by
      rw [List.find?_eq_none]
      intro m hm hmark
      rw [Bool.and_eq_true, beq_iff_eq, beq_iff_eq] at hmark
      obtain ⟨rfl, rfl⟩ := hmark
      exact hrun (h m hm)
    rw [hmore, Option.or_none]

/-! ## The pairs -/

/-- The first results of a conversion, where it has one past the cache and one through it. -/
def firstPair (results : List BenchmarkResult) (id : String) : Option (BenchmarkResult × BenchmarkResult) :=
  let first (cached : Bool) := results.find? fun r => r.conversion == id && r.cached == cached
  match first false, first true with
  | some without, some cached => some (without, cached)
  | _, _ => none

theorem pairs_eq (results : List BenchmarkResult) :
    pairs results = (distinct (results.map (·.conversion))).filterMap (firstPair results) := rfl

theorem firstPair_eq_some {p : BenchmarkResult × BenchmarkResult} (h : firstPair results id = some p) :
    IsFirst results id false p.1 ∧ IsFirst results id true p.2 := by
  unfold firstPair at h
  dsimp only at h
  split at h
  · rename_i hwithout hcached
    cases h
    exact ⟨find?_iff_isFirst.mp hwithout, find?_iff_isFirst.mp hcached⟩
  · cases h

theorem isSome_firstPair (results : List BenchmarkResult) (id : String) :
    (firstPair results id).isSome = (hasRun results id false && hasRun results id true) := by
  rw [← isSome_find?_eq, ← isSome_find?_eq]
  unfold firstPair
  dsimp only
  cases results.find? fun r => r.conversion == id && r.cached == false with
  | none => rfl
  | some without => cases results.find? fun r => r.conversion == id && r.cached == true <;> rfl

theorem isFirst_of_mem_pairs {p : BenchmarkResult × BenchmarkResult} (h : p ∈ pairs results) :
    IsFirst results p.1.conversion false p.1 ∧ IsFirst results p.1.conversion true p.2 := by
  rw [pairs_eq, List.mem_filterMap] at h
  obtain ⟨id, -, hpair⟩ := h
  obtain ⟨hwithout, hcached⟩ := firstPair_eq_some hpair
  obtain rfl := hwithout.conversion
  exact ⟨hwithout, hcached⟩

theorem ids_pairs (results : List BenchmarkResult) :
    (pairs results).map (·.1.conversion) =
      (distinct (results.map (·.conversion))).filter fun id => hasRun results id false && hasRun results id true := by
  rw [pairs_eq, List.map_filterMap, ← List.filterMap_eq_filter]
  apply List.filterMap_congr
  intro id _
  rw [Option.guard, ← isSome_firstPair]
  cases hpair : firstPair results id with
  | none => rfl
  | some p => simp [(firstPair_eq_some hpair).1.conversion]

theorem mem_ids_pairs : id ∈ (pairs results).map (·.1.conversion) ↔
    hasRun results id false = true ∧ hasRun results id true = true := by
  rw [ids_pairs, List.mem_filter, Bool.and_eq_true, and_iff_right_iff_imp]
  rintro ⟨hrun, -⟩
  obtain ⟨r, hr, hid, -⟩ := hasRun_iff.mp hrun
  exact mem_distinct.mpr (List.mem_map.mpr ⟨r, hr, hid⟩)

/-- Pairs stand in the order in which their conversions come first. -/
theorem pairwise_pairs (results : List BenchmarkResult) : (pairs results).Pairwise fun p q =>
    (results.map (·.conversion)).idxOf p.1.conversion < (results.map (·.conversion)).idxOf q.1.conversion := by
  have hids := (pairwise_distinct (results.map (·.conversion))).filter fun id =>
    hasRun results id false && hasRun results id true
  rwa [← ids_pairs, List.pairwise_map] at hids

theorem nodup_ids_pairs (results : List BenchmarkResult) : ((pairs results).map (·.1.conversion)).Nodup := by
  rw [ids_pairs]
  exact (nodup_distinct _).filter _

/-- Results of a conversion and in a mode that occurred before change nothing. -/
theorem pairs_append_of_known (h : ∀ m ∈ more, hasRun results m.conversion m.cached = true) :
    pairs (results ++ more) = pairs results := by
  have hids : distinct ((results ++ more).map (·.conversion)) = distinct (results.map (·.conversion)) := by
    rw [List.map_append]
    apply distinct_append
    intro id hid
    obtain ⟨m, hm, rfl⟩ := List.mem_map.mp hid
    obtain ⟨r, hr, hsame, -⟩ := hasRun_iff.mp (h m hm)
    exact List.mem_map.mpr ⟨r, hr, hsame⟩
  have hpair : firstPair (results ++ more) = firstPair results := by
    funext id
    simp only [firstPair, find?_append_of_known h]
  rw [pairs_eq, pairs_eq, hids, hpair]

end

end FieldBridge
