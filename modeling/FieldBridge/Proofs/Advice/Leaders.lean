import FieldBridge.Advice.Analysis
import FieldBridge.Proofs.Advice.Ranking
import FieldBridge.Proofs.Decimal.Rounding

/-!
# The analyses of greatest potential

Advice to make a conversion faster is for some of the three analyses of greatest potential. A
fourth one does not come in when one of the three needs no advice. Where no two potentials are the
same, the order of the analyses does not count.
-/

namespace FieldBridge

namespace Decimal

theorem totalKey_injective {x y : Float} (h : totalKey x = totalKey y) : x = y := by
  apply Binary.toBits_injective
  apply UInt64.toNat_inj.mp
  simp only [totalKey] at h
  split at h <;> split at h <;> omega

theorem totalLe_antisymm {x y : Float} (hxy : totalLe x y = true) (hyx : totalLe y x = true) : x = y := by
  apply totalKey_injective
  simp only [totalLe, decide_eq_true_eq] at hxy hyx
  omega

end Decimal

open Decimal

namespace Analysis

/-- Of greater potential, or of the same and at an earlier position. -/
def Before (as : List Analysis) (i j : Fin as.length) : Prop :=
  totalLe as[j].potential as[i].potential = true ∧ (totalLe as[i].potential as[j].potential = true → i < j)

/-- The positions of the three analyses that are before all others, the first of them first. -/
structure IsPodium (as : List Analysis) (places : List (Fin as.length)) : Prop where
  length : places.length = min 3 as.length
  sorted : places.Pairwise (Before as)
  ahead : ∀ i ∈ places, ∀ j, j ∉ places → Before as i j

variable {as bs : List Analysis}

theorem Before.asymm {i j : Fin as.length} (h : Before as i j) : ¬Before as j i := by
  intro h'
  have hlt := h.2 h'.1
  have hgt := h'.2 h.1
  omega

/-! ## The podium -/

namespace IsPodium

variable {places places' : List (Fin as.length)}

theorem nodup (h : IsPodium as places) : places.Nodup := by
  refine h.sorted.imp ?_
  rintro i j hbefore rfl
  exact hbefore.asymm hbefore

theorem subset (h : IsPodium as places) (h' : IsPodium as places') : places ⊆ places' := by
  intro i hi
  by_contra hout
  -- as many stand on the other podium, so one of them does not stand on this one
  have hsome : ∃ j ∈ places', j ∉ places := by
    by_contra! hsubset
    have hperm := (List.subperm_of_subset h'.nodup hsubset).perm_of_length_le (by rw [h.length, h'.length])
    exact hout (hperm.mem_iff.mpr hi)
  obtain ⟨j, hj, hjout⟩ := hsome
  exact (h.ahead i hi j hjout).asymm (h'.ahead j hj i hout)

theorem unique (h : IsPodium as places) (h' : IsPodium as places') : places = places' := by
  have hperm : places.Perm places' := by
    rw [List.perm_ext_iff_of_nodup h.nodup h'.nodup]
    intro i
    exact ⟨fun hi => h.subset h' hi, fun hi => h'.subset h hi⟩
  refine hperm.eq_of_pairwise ?_ h.sorted h'.sorted
  intro i j _ _ hij hji
  exact absurd hji hij.asymm

end IsPodium

/-- What comes first when all are put in order of potential is the podium. -/
theorem exists_podium (as : List Analysis) :
    ∃ places, IsPodium as places ∧ (byPotential as).take 3 = places.map as.get := by
  let sorted := (List.finRange as.length).mergeSort fun i j => totalLe (as.get j).potential (as.get i).potential
  have hperm : sorted.Perm (List.finRange as.length) := List.mergeSort_perm _ _
  have hsorted : sorted.Pairwise (Before as) :=
    pairwise_mergeSort_totalLe (fun i => (as.get i).potential) (List.pairwise_lt_finRange _)
  have hget : byPotential as = sorted.map as.get := by
    have hmap := List.map_mergeSort (f := as.get) (l := List.finRange as.length)
      (s := fun a b => totalLe b.potential a.potential) fun _ _ _ _ => rfl
    rw [List.map_get_finRange] at hmap
    exact hmap.symm
  have hsplit := List.take_append_drop 3 sorted
  refine ⟨sorted.take 3, ⟨?_, ?_, ?_⟩, ?_⟩
  · rw [List.length_take, hperm.length_eq, List.length_finRange]
  · exact hsorted.sublist (List.take_sublist _ _)
  · intro i hi j hj
    rw [← hsplit, List.pairwise_append] at hsorted
    have hmem : j ∈ sorted := hperm.mem_iff.mpr (List.mem_finRange j)
    rw [← hsplit] at hmem
    exact hsorted.2.2 i hi j ((List.mem_append.mp hmem).resolve_left hj)
  · rw [hget, List.map_take]

/-! ## Advice of each kind -/

/-- The pieces of advice to make a conversion faster. -/
def optimizations (as : List Analysis) : List Advice := (advice as).filter (·.kind = .optimizeConversion)

/-- The pieces of advice to compute values in advance. -/
def precalculations (as : List Analysis) : List Advice := (advice as).filter (·.kind = .precalculateValues)

@[simp] theorem kind_toOptimize (a : Analysis) : a.toOptimize.kind = .optimizeConversion := rfl

@[simp] theorem kind_toPrecalculate (a : Analysis) : a.toPrecalculate.kind = .precalculateValues := rfl

theorem optimizations_eq (as : List Analysis) :
    optimizations as = (((byPotential as).take 3).filter isSlowAndUncached).map toOptimize := by
  simp [optimizations, advice, List.filter_map, Function.comp_def]

theorem precalculations_eq (as : List Analysis) :
    precalculations as = (as.filter isWorthPrecalculating).map toPrecalculate := by
  simp [precalculations, advice, List.filter_map, Function.comp_def]

/-! ## Analyses in another order -/

theorem byPotential_perm (as : List Analysis) : (byPotential as).Perm as := List.mergeSort_perm _ _

theorem byPotential_eq_of_perm (h : as.Perm bs) (hdistinct : (as.map (·.potential)).Nodup) :
    byPotential as = byPotential bs := by
  have hperm : (byPotential as).Perm (byPotential bs) :=
    (byPotential_perm as).trans (h.trans (byPotential_perm bs).symm)
  have hsorted : ∀ cs : List Analysis, (byPotential cs).Pairwise fun a b =>
      totalLe b.potential a.potential = true := by
    intro cs
    exact (pairwise_mergeSort_totalLe (R := fun _ _ => True) potential
      (List.pairwise_of_forall fun _ _ => trivial)).imp And.left
  refine hperm.eq_of_pairwise ?_ (hsorted as) (hsorted bs)
  intro a b ha hb hab hba
  have hpotential : a.potential = b.potential := totalLe_antisymm hba hab
  have ha' : a ∈ as := (byPotential_perm as).mem_iff.mp ha
  have hb' : b ∈ as := h.mem_iff.mpr ((byPotential_perm bs).mem_iff.mp hb)
  exact List.inj_on_of_nodup_map hdistinct ha' hb' hpotential

/-- **Only the three of greatest potential are advised to be made faster.** These are given by the
potentials and by the positions alone, and advice is for those of them that are slow and seldom
found in the cache, the one of greatest potential first. Analyses in another order lead to the other
kind of advice in another order, and, where all potentials are distinct, to the same of this kind. -/
theorem advice_podium (as : List Analysis) :
    (∃ places, IsPodium as places ∧ (∀ other, IsPodium as other → other = places) ∧
      optimizations as = ((places.map as.get).filter fun a =>
        a.efficiency < 0.7 && a.averageTime > 5.0).map toOptimize) ∧
    (optimizations as).length ≤ 3 ∧
    precalculations as = (as.filter fun a =>
      a.complexity > 2 && a.usage > 20 && a.efficiency < 0.5).map toPrecalculate ∧
    ∀ bs, as.Perm bs → ((as.map (·.potential)).Nodup → optimizations bs = optimizations as) ∧
      (precalculations bs).Perm (precalculations as) := by
  obtain ⟨places, hpodium, hplaces⟩ := exists_podium as
  refine ⟨⟨places, hpodium, fun _ hother => hother.unique hpodium, ?_⟩, ?_, precalculations_eq as, ?_⟩
  · rw [optimizations_eq, hplaces]
    rfl
  · rw [optimizations_eq, List.length_map]
    exact (List.length_filter_le _ _).trans (List.length_take_le _ _)
  · intro bs h
    constructor
    · intro hdistinct
      rw [optimizations_eq, optimizations_eq, byPotential_eq_of_perm h hdistinct]
    · rw [precalculations_eq, precalculations_eq]
      exact ((h.filter _).map _).symm

/-- Two of the first three need no advice, and the fourth, which is slow, still gets none. -/
theorem advice_podium_fourth :
    let analysis (id : String) (time efficiency potential : Float) : Analysis :=
      ⟨id, id, time, time, 0.0, 3, efficiency, 0.0, 30, 0, 0, potential⟩
    let as := [analysis "busy" 6.0 0.4 10.0, analysis "cached" 30.0 0.95 100.0, analysis "quick" 2.0 0.1 20.0,
      analysis "slow" 25.0 0.2 50.0]
    as.Perm as.reverse ∧ (as.map (·.potential)).Nodup ∧ IsPodium as [1, 3, 2] ∧
      (optimizations as).map (·.conversion) = [some "slow"] ∧ optimizations as.reverse = optimizations as ∧
      (precalculations as.reverse).Perm (precalculations as) := by
  intro analysis as
  have h : as.Perm as.reverse := (List.reverse_perm _).symm
  have hdistinct : (as.map (·.potential)).Nodup := by decide +kernel
  have hpodium : IsPodium as [1, 3, 2] :=
    ⟨by decide, by unfold Before; decide +kernel, by unfold Before; decide +kernel⟩
  obtain ⟨⟨places, -, hunique, hadvice⟩, -, -, hsame⟩ := advice_podium as
  obtain ⟨hoptimize, hprecalculate⟩ := hsame _ h
  refine ⟨h, hdistinct, hpodium, ?_, hoptimize hdistinct, hprecalculate⟩
  rw [hadvice, ← hunique _ hpodium]
  decide +kernel

end Analysis

end FieldBridge
