import FieldBridge.Proofs.Benchmark.Course
import FieldBridge.Proofs.Conversion.Transparency

/-!
# Benchmarks through an honest cache

Samples are in normal form, so that two honest caches count the same failures, and
both stay honest. Nothing but the times of two results shows through which of them they
were measured.
-/

namespace FieldBridge

/-- Results without the times that were measured, and the cache. -/
def Benchmark.untimed (x : Except Error (List BenchmarkResult) × Cache) : Except Error (List BenchmarkResult) × Cache :=
  (x.1.map (·.map BenchmarkResult.untimed), x.2)

namespace Benchmark

section
variable {c : Catalog} {t : Conversion} {x y : Cache × Nat}

theorem step_alike (ht : c.get? t.id = some t) (cached : Bool) (h : Alike c x.swap y.swap) (v : Value) :
    Alike c (step t cached x v).swap (step t cached y v).swap := by
  obtain ⟨a, failures⟩ := x
  obtain ⟨b, _⟩ := y
  obtain ⟨rfl, ha, hb⟩ := h
  unfold step
  cases cached with
  | false =>
    cases hrun : t.run v .empty with
    | ok r => exact ⟨rfl, ha, hb⟩
    | error e => exact ⟨rfl, ha, hb⟩
  | true =>
    obtain ⟨r, a', b', hx, hy, haa, hba⟩ := (Conversion.runCached_alike ht ha hb v ⟨.empty, rfl⟩).pair
    dsimp only [Prod.swap, if_true] at hx hy ⊢
    rw [hx, hy]
    cases r with
    | ok r => exact ⟨rfl, haa, hba⟩
    | error e => exact ⟨rfl, haa, hba⟩

end

variable {c : Catalog} {a b : Cache}

theorem finish_alike {t : Conversion} (ht : c.get? t.id = some t) (r : BenchmarkRun) (ha : Honest c a)
    (hb : Honest c b) : Alike c ((finish t r a).failures, (finish t r a).cache)
      ((finish t r b).failures, (finish t r b).cache) := by
  have hnormal : ∀ v ∈ t.source.samples r.samples, v.IsNormal := fun v => Kind.isNormal_of_mem_samples
  have hstart : Alike c ((start r a).failures, (start r a).cache) ((start r b).failures, (start r b).cache) := by
    unfold start
    cases r.cached with
    | true => exact ⟨rfl, ha, hb⟩
    | false => exact ⟨rfl, ha.subset (List.nil_subset _), hb.subset (List.nil_subset _)⟩
  exact iterate_lap_keeps (R := fun x y => Alike c x.swap y.swap) (fun _ _ h => ⟨h.result, h.left, h.right⟩)
    (fun v hv _ _ h => step_alike ht r.cached h ⟨v, hnormal v hv⟩) r.iterations hstart

theorem run_alike (hc : c.Indexed) (ha : Honest c a) (hb : Honest c b) (r : BenchmarkRun) :
    Alike c ((run c a r).1.map BenchmarkResult.untimed, (run c a r).2)
      ((run c b r).1.map BenchmarkResult.untimed, (run c b r).2) := by
  obtain ⟨-, hrun⟩ | ⟨t, -, hget, hrun⟩ := run_cases c r
  · rw [hrun, hrun]
    exact ⟨rfl, ha, hb⟩
  · have ht : c.get? t.id = some t := hc.get?_iff.mpr ⟨(hc.get?_iff.mp hget).1, rfl⟩
    obtain ⟨hfailures, hleft, hright⟩ := finish_alike ht r ha hb
    rw [hrun, hrun]
    refine ⟨?_, hleft, hright⟩
    simp only [Except.map, measured, BenchmarkResult.untimed] at hfailures ⊢
    rw [hfailures]

/-- Runs in turn, and with them everything that comes down to runs in turn. -/
theorem inTurn_alike (hc : c.Indexed) (ha : Honest c a) (hb : Honest c b) (runs : List BenchmarkRun) :
    Alike c (untimed (inTurn c runs a)) (untimed (inTurn c runs b)) := by
  induction runs generalizing a b with
  | nil => exact ⟨rfl, ha, hb⟩
  | cons r runs ih =>
    obtain ⟨houtcome, hleft, hright⟩ := run_alike hc ha hb r
    unfold inTurn
    generalize run c a r = x at houtcome hleft
    generalize run c b r = y at houtcome hright
    obtain ⟨x, a'⟩ := x
    obtain ⟨y, b'⟩ := y
    cases x with
    | error e =>
      cases y with
      | error e' =>
        cases houtcome
        exact ⟨rfl, hleft, hright⟩
      | ok result => cases houtcome
    | ok result =>
      cases y with
      | error e => cases houtcome
      | ok result' =>
        obtain ⟨hrest, hleft, hright⟩ := ih hleft hright
        have hone : result.untimed = result'.untimed := Except.ok.inj houtcome
        refine ⟨?_, hleft, hright⟩
        simp only [untimed, except_map_cons] at hrest ⊢
        rw [hrest, hone]

theorem comparative_alike (hc : c.Indexed) (ha : Honest c a) (hb : Honest c b) (id : String)
    (iterations samples : Nat) :
    let without (x : BenchmarkResult × BenchmarkResult) := (x.1.untimed, x.2.untimed)
    Alike c ((comparative c a id iterations samples).1.map without, (comparative c a id iterations samples).2)
      ((comparative c b id iterations samples).1.map without, (comparative c b id iterations samples).2) := by
  have hturn := inTurn_alike hc ha hb (Plan.comparative id iterations samples)
  rw [comparative_inTurn, comparative_inTurn] at hturn
  obtain ⟨houtcome, hleft, hright⟩ := hturn
  refine ⟨?_, hleft, hright⟩
  cases hx : (comparative c a id iterations samples).1 <;> cases hy : (comparative c b id iterations samples).1 <;>
    simp [untimed, Except.map, hx, hy] at houtcome ⊢
  · exact houtcome
  · exact houtcome

theorem comparativeEach_alike (hc : c.Indexed) (ha : Honest c a) (hb : Honest c b) (iterations samples : Nat)
    (ts : List Conversion) :
    Alike c (untimed (comparativeEach c iterations samples ts a))
      (untimed (comparativeEach c iterations samples ts b)) := by
  rw [← comparativeEach_inTurn, ← comparativeEach_inTurn]
  exact inTurn_alike hc ha hb _

end Benchmark

namespace Plan

theorem perform_alike {c : Catalog} {a b : Cache} (hc : c.Indexed) (ha : Honest c a) (hb : Honest c b)
    (cancelled : Bool) (p : Plan) :
    Alike c (Benchmark.untimed ((p.perform c cancelled a).outcome, (p.perform c cancelled a).cache))
      (Benchmark.untimed ((p.perform c cancelled b).outcome, (p.perform c cancelled b).cache)) := by
  cases cancelled with
  | false =>
    rw [perform_inTurn, perform_inTurn]
    exact Benchmark.inTurn_alike hc ha hb p
  | true =>
    cases p with
    | nil => exact ⟨rfl, ha, hb⟩
    | cons r rest => exact ⟨rfl, ha, hb⟩

end Plan

end FieldBridge
