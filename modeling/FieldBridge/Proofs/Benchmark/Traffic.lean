import FieldBridge.Benchmark.Basic
import FieldBridge.Proofs.Benchmark.Samples
import FieldBridge.Proofs.Cache.Counting
import FieldBridge.Proofs.Cache.Survival
import FieldBridge.Proofs.Conversion.Registration
import Mathlib.Data.List.DropRight
import Mathlib.Data.List.ReduceOption

/-!
# What a benchmark asks of a cache

A comparative benchmark drops the entries of the cache and then asks for one value after
another, always under the same id and without options, and for the time before and after
each iteration. As long as no lifetime runs out, what the cache holds on the way is a list
of values, oldest first, and what it counts can be read off that list.
-/

namespace FieldBridge

namespace Conversion

def succeeds (t : Conversion) (v : Json) : Bool := (t.run v .empty).isOk

def call (t : Conversion) (v : Json) : Call := ⟨t.id, v, .empty⟩

/-- One step of a run: it asks for the result of a value, or else for the time. -/
def ask (t : Conversion) : Option Json → Request Failure
  | some v => .getOrCompute (t.call v) (t.run v .empty)
  | none => .look

/-- The values whose results are held after one more value. -/
def retain (t : Conversion) (capacity : Nat) (held : List Json) (v : Json) : List Json :=
  if v ∈ held then held else if t.succeeds v then (held ++ [v]).rtake capacity else held

def retainAll (t : Conversion) (capacity : Nat) (held vs : List Json) : List Json :=
  vs.foldl (t.retain capacity) held

/-- What is counted while values are asked for. -/
def lookups (t : Conversion) (capacity : Nat) : List Json → List Json → Lookups
  | _, [] => {}
  | held, v :: vs => (Lookups.record {} (decide (v ∈ held))).plus (t.lookups capacity (t.retain capacity held v) vs)

/-- A cache holds the results of these values and nothing else, in this order. -/
structure Fills (t : Conversion) (vs : List Json) (c : Cache) : Prop where
  order : c.order.map (·.2) = vs.map fun v => (t.call v).key
  size : c.size = vs.length
  owned : ∀ p ∈ c.entries, p.2.conversion = t.id
  stored : ∀ v ∈ vs, ∃ e, c.find? (t.call v).key = some e ∧ t.run v .empty = .ok e.value

section
variable (t : Conversion) (capacity : Nat)

theorem retainAll_append (held vs us : List Json) :
    t.retainAll capacity held (vs ++ us) = t.retainAll capacity (t.retainAll capacity held vs) us := by
  simp [retainAll]

theorem lookups_append (held vs us : List Json) : t.lookups capacity held (vs ++ us) =
    (t.lookups capacity held vs).plus (t.lookups capacity (t.retainAll capacity held vs) us) := by
  induction vs generalizing held with
  | nil => simp [lookups, retainAll, Lookups.plus]
  | cons v vs ih =>
    simp only [List.cons_append, lookups]
    rw [ih, Lookups.plus_assoc]
    rfl

theorem total_lookups (held vs : List Json) : (t.lookups capacity held vs).total = vs.length := by
  induction vs generalizing held with
  | nil => rfl
  | cons v vs ih =>
    simp only [lookups, Lookups.total_plus, Lookups.total_record, ih, List.length_cons]
    exact Nat.add_comm _ _

end

end Conversion

/-! ## The queue behind it -/

/-- An item that holds the result of a value and was not stored before `begun`. -/
structure Keeps (t : Conversion) (ttl begun : Nat) (v : Json) (i : Item) : Prop where
  normal : v.IsNormal
  call : i.call = t.call v
  result : t.run v .empty = .ok i.result
  ttl : i.ttl = ttl
  since : begun ≤ i.since

/-- An entry that holds the result of a value. -/
structure Holds (t : Conversion) (v : Json) (e : String × CacheEntry) : Prop where
  key : e.1 = (t.call v).key
  conversion : e.2.conversion = t.id
  value : t.run v .empty = .ok e.2.value

/-- The queue of a run that began at `begun` holds the results of these values. -/
structure Carries (t : Conversion) (start : CacheSettings) (begun : Nat) (held : List Json) (q : Queue) : Prop where
  settings : q.settings = start
  later : begun ≤ q.clock.now
  items : List.Forall₂ (Keeps t start.ttl begun) held q.items

section
variable {α β γ : Type} {R : α → β → Prop} {S : β → γ → Prop} {as : List α} {bs : List β} {cs : List γ}

theorem forall₂_through (h : List.Forall₂ R as bs) (h' : List.Forall₂ S bs cs) :
    List.Forall₂ (fun a c => ∃ b, R a b ∧ S b c) as cs := by
  induction h generalizing cs with
  | nil =>
    cases h'
    exact .nil
  | cons hab _ ih =>
    cases h' with
    | cons hbc hrest => exact .cons ⟨_, hab, hbc⟩ (ih hrest)

end

section
variable {t : Conversion} {start : CacheSettings} {begun deadline : Nat} {held : List Json} {v w : Json} {i : Item}
  {q : Queue}

theorem Conversion.call_same_iff (hv : v.IsNormal) (hw : w.IsNormal) : (t.call v).Same (t.call w) ↔ v = w := by
  rw [Call.same_iff]
  simp only [Conversion.call, true_and, and_true]
  rw [hv, hw]

theorem Keeps.same_iff {ttl : Nat} (h : Keeps t ttl begun v i) (hw : w.IsNormal) : i.call.Same (t.call w) ↔ v = w := by
  rw [h.call]
  exact Conversion.call_same_iff h.normal hw

namespace Carries

theorem withClock (h : Carries t start begun held q) {clock : Clock} (hclock : q.clock.Precedes clock) :
    Carries t start begun held { q with clock := clock } :=
  ⟨h.settings, Nat.le_trans h.later hclock.now, h.items⟩

theorem find?_rel (h : Carries t start begun held q) (hv : v.IsNormal) :
    Option.Rel (Keeps t start.ttl begun) (held.find? (· == v)) (q.find? (t.call v)) := by
  apply rel_find? _ h.items
  intro u i hui
  rw [Bool.eq_iff_iff, beq_iff_eq, decide_eq_true_iff, hui.same_iff hv]

theorem get_of_not_mem (h : Carries t start begun held q) (hv : v.IsNormal) (hm : v ∉ held) :
    q.get (t.call v) = (none, q) := by
  have hrel := h.find?_rel hv
  have hnone : held.find? (· == v) = none := by
    rw [List.find?_eq_none]
    intro u hu hbeq
    exact hm (beq_iff_eq.mp hbeq ▸ hu)
  rw [hnone] at hrel
  unfold Queue.get
  cases hf : q.find? (t.call v) with
  | none => simp
  | some i =>
    rw [hf] at hrel
    cases hrel

theorem get_of_mem (h : Carries t start begun held q) (hon : start.enabled = true)
    (hnow : q.clock.look.now ≤ deadline) (httl : deadline - begun < start.ttl) (hv : v.IsNormal) (hm : v ∈ held) :
    ∃ result, q.get (t.call v) = (some result, q.look) := by
  have hrel := h.find?_rel hv
  have hsome : (held.find? (· == v)).isSome = true := List.find?_isSome.mpr ⟨v, hm, beq_self_eq_true v⟩
  obtain ⟨u, hu⟩ := Option.isSome_iff_exists.mp hsome
  rw [hu] at hrel
  unfold Queue.get
  cases hf : q.find? (t.call v) with
  | none =>
    rw [hf] at hrel
    cases hrel
  | some i =>
    rw [hf] at hrel
    cases hrel with
    | some hi =>
      have hsince := hi.since
      have hexp : i.expired q.clock.look.now = false := by
        rw [Item.expired, hi.ttl, decide_eq_false_iff_not]
        omega
      exact ⟨i.result, by simp [h.settings, hon, hexp]⟩

theorem others (h : Carries t start begun held q) (hv : v.IsNormal) (hm : v ∉ held) :
    List.Forall₂ (Keeps t start.ttl begun) held (q.others (t.call v)) := by
  have hself : held.filter (fun u => !(u == v)) = held := by
    rw [List.filter_eq_self]
    intro u hu
    have hne : u ≠ v := fun he => hm (he ▸ hu)
    simpa using hne
  rw [← hself]
  apply List.rel_filter _ h.items
  intro u i hui
  simp [hui.same_iff hv]

theorem set (h : Carries t start begun held q) (hon : start.enabled = true) (hpos : 0 < start.capacity)
    (hv : v.IsNormal) (hm : v ∉ held) {result : Json} (hrun : t.run v .empty = .ok result) :
    Carries t start begun ((held ++ [v]).rtake start.capacity) (q.set (t.call v) result none) := by
  have hothers := h.others hv hm
  have hlen := hothers.length_eq
  have hlater := Nat.le_trans h.later q.clock.now_le_look
  obtain ⟨n, hn⟩ : ∃ n, start.capacity = n + 1 := ⟨start.capacity - 1, by omega⟩
  rw [Queue.set_eq (h.settings ▸ hon) (h.settings ▸ hpos), h.settings, hn, List.rtake_concat_succ,
    Nat.add_sub_cancel, List.rtake, hlen]
  have hnew : Keeps t start.ttl begun v ⟨t.call v, result, start.ttl, q.clock.look.now⟩ := ⟨hv, rfl, hrun, rfl, hlater⟩
  exact ⟨h.settings, hlater, List.rel_append (List.forall₂_drop _ hothers) (.cons hnew .nil)⟩

/-- One value: it is found exactly when it is held, and what is held afterwards follows. -/
theorem answer (h : Carries t start begun held q) (hon : start.enabled = true) (hpos : 0 < start.capacity)
    (hnow : q.clock.look.now ≤ deadline) (httl : deadline - begun < start.ttl) (hv : v.IsNormal) :
    (q.get (t.call v)).1.isSome = decide (v ∈ held) ∧
      Carries t start begun (t.retain start.capacity held v) (q.answer (t.ask (some v))).2 := by
  by_cases hm : v ∈ held
  · obtain ⟨result, hget⟩ := h.get_of_mem hon hnow httl hv hm
    have hafter : (q.answer (t.ask (some v))).2 = q.look := by
      simp [Queue.answer, Conversion.ask, hget]
    rw [hafter, hget, Conversion.retain, if_pos hm]
    exact ⟨by simp [hm], h.withClock q.clock.precedes_look⟩
  · have hget := h.get_of_not_mem hv hm
    rw [hget, Conversion.retain, if_neg hm]
    refine ⟨by simp [hm], ?_⟩
    cases hrun : t.run v .empty with
    | error e => simpa [Queue.answer, Conversion.ask, Conversion.succeeds, hget, hrun, Except.isOk, Except.toBool] using h
    | ok result =>
      have hset := h.set hon hpos hv hm hrun
      simpa [Queue.answer, Conversion.ask, Conversion.succeeds, hget, hrun, Except.isOk, Except.toBool] using hset

/-- A run in which no lifetime runs out. -/
theorem answers (h : Carries t start begun held q) {c : Cache} (hc : Refines c q) (hon : start.enabled = true)
    (hpos : 0 < start.capacity) (httl : deadline - begun < start.ttl) {steps : List (Option Json)}
    (hnormal : ∀ v ∈ steps.reduceOption, v.IsNormal)
    (hend : (FieldBridge.answers Cache.answer c (steps.map t.ask)).2.clock.look.now ≤ deadline) :
    Counted t.id (t.lookups start.capacity held steps.reduceOption) c
        (FieldBridge.answers Cache.answer c (steps.map t.ask)).2 ∧
      Carries t start begun (t.retainAll start.capacity held steps.reduceOption)
        (FieldBridge.answers Queue.answer q (steps.map t.ask)).2 := by
  induction steps generalizing held q c with
  | nil => exact ⟨.refl _ _, h⟩
  | cons step steps ih =>
    have hnow : q.clock.look.now ≤ deadline := by
      rw [← hc.clock]
      exact Nat.le_trans (c.precedes_answers ((step :: steps).map t.ask)).next hend
    cases step with
    | none =>
      obtain ⟨hrest, hlast⟩ := ih (h.withClock q.clock.precedes_look) hc.look hnormal hend
      exact ⟨hrest.congr rfl rfl, hlast⟩
    | some v =>
      rw [List.reduceOption_cons_of_some] at hnormal ⊢
      obtain ⟨hfound, hstep⟩ := h.answer hon hpos hnow httl (hnormal v List.mem_cons_self)
      have hone : Counted t.id (Lookups.record {} (decide (v ∈ held))) c (c.answer (t.ask (some v))).2 := by
        rw [← hfound, ← (hc.get (t.call v)).1]
        exact .getOrCompute c t.id v .empty _
      obtain ⟨hrest, hlast⟩ := ih hstep (hc.answer _).2 (fun u hu => hnormal u (List.mem_cons_of_mem _ hu)) hend
      exact ⟨hone.trans hrest, hlast⟩

theorem entries (h : Carries t start begun held q) {c : Cache} (hc : Refines c q) :
    List.Forall₂ (Holds t) held c.queue := by
  apply (forall₂_through h.items hc.items.flip).imp
  intro v e ⟨i, hi, he⟩
  refine ⟨?_, ?_, ?_⟩
  · rw [he.key, hi.call]
  · rw [he.conversion, hi.call]
    rfl
  · rw [he.value, hi.result]

theorem fills (h : Carries t start begun held q) {c : Cache} (hc : Refines c q) : t.Fills held c := by
  have hentries := h.entries hc
  refine ⟨?_, ?_, ?_, ?_⟩
  · have hkeys : c.queue.map (·.1) = held.map fun v => (t.call v).key := by
      rw [← List.forall₂_eq_eq_eq, List.forall₂_map_left_iff, List.forall₂_map_right_iff]
      exact hentries.flip.imp fun _ _ he => he.key
    rw [hc.consistent.order_eq, List.map_map, ← hkeys]
    rfl
  · rw [Cache.size_eq, hentries.length_eq]
  · intro p hp
    obtain ⟨v, -, he⟩ := exists_of_mem hentries.flip (List.mem_reverse.mpr hp)
    exact he.conversion
  · intro v hv
    obtain ⟨e, hmem, he⟩ := exists_of_mem hentries hv
    refine ⟨e.2, ?_, he.value⟩
    rw [hc.consistent.find?_eq_some_iff, ← he.key]
    exact hmem

end Carries
end

/-! ## The benchmark -/

namespace Benchmark

/-- The steps of one iteration. Past the cache it only asks for the time. -/
def lapSteps (cached : Bool) (vs : List Json) : List (Option Json) :=
  none :: (if cached then vs.map some else []) ++ [none]

def steps (t : Conversion) (r : BenchmarkRun) : List (Option Json) :=
  (List.replicate r.iterations (lapSteps r.cached (t.source.samples r.samples))).flatten

/-- The steps of a run past the cache and of one through it. -/
def comparativeSteps (t : Conversion) (iterations samples : Nat) : List (Option Json) :=
  steps t ⟨t.id, iterations, samples, false⟩ ++ steps t ⟨t.id, iterations, samples, true⟩

/-- What the iterations of a run leave. -/
def finish (t : Conversion) (r : BenchmarkRun) (cache : Cache) : State :=
  (lap t r.cached (t.source.samples r.samples))^[r.iterations] (start r cache)

/-- The values that a run asks for, one pass after another. -/
def traffic (t : Conversion) (iterations samples : Nat) : List Json :=
  (List.replicate iterations (t.source.samples samples)).flatten

/-- The nanoseconds that a comparative benchmark takes. -/
def duration (c : Catalog) (cache : Cache) (id : String) (iterations samples : Nat) : Nat :=
  (comparative c cache id iterations samples).2.clock.now - cache.clock.now

section
variable (t : Conversion) (cached : Bool)

theorem step_fst (state : Cache × Nat) (v : Json) :
    (step t cached state v).1 = if cached then (state.1.answer (t.ask (some v))).2 else state.1 := by
  cases cached with
  | false =>
    unfold step
    cases hrun : t.run v .empty <;> simp
  | true =>
    have hanswer : (state.1.answer (t.ask (some v))).2 = (t.runCached state.1 v .empty).2 := rfl
    rw [hanswer]
    unfold step
    generalize t.runCached state.1 v .empty = r
    obtain ⟨outcome, c⟩ := r
    cases outcome <;> simp

theorem pass_fst (vs : List Json) (state : Cache × Nat) : (pass t cached vs state).1 =
    (answers Cache.answer state.1 ((if cached then vs.map some else []).map t.ask)).2 := by
  unfold pass
  induction vs generalizing state with
  | nil => cases cached <;> rfl
  | cons v vs ih =>
    rw [List.foldl_cons, ih, step_fst]
    cases cached <;> rfl

theorem lap_cache (vs : List Json) (state : State) : (lap t cached vs state).cache =
    (answers Cache.answer state.cache ((lapSteps cached vs).map t.ask)).2 := by
  have hpass := pass_fst t cached vs (state.cache.look, state.failures)
  rw [lapSteps, List.map_append, answers_append]
  show (pass t cached vs (state.cache.look, state.failures)).1.look = _
  rw [hpass]
  rfl

theorem iterate_lap_cache (vs : List Json) (n : Nat) (state : State) : ((lap t cached vs)^[n] state).cache =
    (answers Cache.answer state.cache ((List.replicate n (lapSteps cached vs)).flatten.map t.ask)).2 := by
  induction n generalizing state with
  | zero => rfl
  | succ n ih =>
    rw [Function.iterate_succ_apply, ih, lap_cache, List.replicate_succ, List.flatten_cons, List.map_append,
      answers_append]

/-- A watch that never ends a run only adds to what is told. -/
theorem iterate_of_never {α : Type} {watch : Watch α} (hw : ∀ k, (watch k).2 = none) (vs : List Json) (n made : Nat)
    (state : State) : iterate t cached vs watch n made state =
      (((List.range' (made + 1) n).flatMap fun k => (watch k).1, none), (lap t cached vs)^[n] state) := by
  induction n generalizing made state with
  | zero => rfl
  | succ n ih =>
    unfold iterate
    cases hk : watch (made + 1) with
    | mk told ended =>
      have hended : ended = none := by simpa [hk] using hw (made + 1)
      subst hended
      simp [ih, hk, List.range'_succ]

end

section
variable {t : Conversion}

theorem finish_cache (r : BenchmarkRun) (cache : Cache) :
    (finish t r cache).cache = (answers Cache.answer (start r cache).cache ((steps t r).map t.ask)).2 :=
  iterate_lap_cache t r.cached _ r.iterations _

theorem execute_of_never {α : Type} {watch : Watch α} (hw : ∀ k, (watch k).2 = none) {c : Catalog} {r : BenchmarkRun}
    (hi : r.iterations ≠ 0) (ht : c.get? r.conversion = some t) (cache : Cache) :
    execute c watch cache r = ((List.range' 1 r.iterations).flatMap fun k => (watch k).1,
      .ok (measured r t (finish t r cache)), (finish t r cache).cache) := by
  unfold execute
  simp only [hi, if_false, ht, iterate_of_never t r.cached hw]
  rfl

theorem run_eq {c : Catalog} {r : BenchmarkRun} (hi : r.iterations ≠ 0) (ht : c.get? r.conversion = some t)
    (cache : Cache) : run c cache r = (.ok (measured r t (finish t r cache)), (finish t r cache).cache) := by
  unfold run
  rw [execute_of_never (fun _ => rfl) hi ht]

theorem length_traffic (iterations samples : Nat) : (traffic t iterations samples).length = iterations * samples := by
  simp [traffic]

theorem isNormal_of_mem_traffic {iterations samples : Nat} {v : Json} (h : v ∈ traffic t iterations samples) :
    v.IsNormal := by
  obtain ⟨vs, hvs, hv⟩ := List.mem_flatten.mp h
  rw [(List.mem_replicate.mp hvs).2] at hv
  exact Kind.isNormal_of_mem_samples hv

theorem reduceOption_lapSteps (cached : Bool) (vs : List Json) :
    (lapSteps cached vs).reduceOption = if cached then vs else [] := by
  rw [lapSteps, List.reduceOption_append, List.reduceOption_cons_of_none]
  cases cached <;> simp [List.reduceOption]

theorem reduceOption_steps (r : BenchmarkRun) :
    (steps t r).reduceOption = if r.cached then traffic t r.iterations r.samples else [] := by
  rw [steps, traffic]
  induction r.iterations with
  | zero => cases r.cached <;> rfl
  | succ n ih =>
    rw [List.replicate_succ, List.flatten_cons, List.reduceOption_append, ih, reduceOption_lapSteps]
    cases r.cached <;> rfl

theorem reduceOption_comparativeSteps (iterations samples : Nat) :
    (comparativeSteps t iterations samples).reduceOption = traffic t iterations samples := by
  rw [comparativeSteps, List.reduceOption_append, reduceOption_steps, reduceOption_steps]
  rfl

/-- The last step of a comparative benchmark asks for the time. -/
theorem comparativeSteps_eq {iterations : Nat} (hi : 1 ≤ iterations) (samples : Nat) :
    ∃ before, comparativeSteps t iterations samples = before ++ [none] := by
  obtain ⟨n, rfl⟩ : ∃ n, iterations = n + 1 := ⟨iterations - 1, by omega⟩
  refine ⟨steps t ⟨t.id, n + 1, samples, false⟩ ++ (steps t ⟨t.id, n, samples, true⟩ ++
    none :: (t.source.samples samples).map some), ?_⟩
  simp [comparativeSteps, steps, List.replicate_succ', lapSteps]

theorem counted_answers (t : Conversion) (steps : List (Option Json)) (c : Cache) :
    ∃ l, Counted t.id l c (answers Cache.answer c (steps.map t.ask)).2 ∧ l.total = steps.reduceOption.length := by
  induction steps generalizing c with
  | nil => exact ⟨{}, .refl _ _, rfl⟩
  | cons step steps ih =>
    obtain ⟨l, hcounted, htotal⟩ := ih (c.answer (t.ask step)).2
    cases step with
    | none => exact ⟨l, hcounted.congr rfl rfl, htotal⟩
    | some v =>
      refine ⟨_, (Counted.getOrCompute c t.id v .empty _).trans hcounted, ?_⟩
      rw [Lookups.total_plus, Lookups.total_record, htotal, List.reduceOption_cons_of_some, List.length_cons]
      exact Nat.add_comm _ _

/-- The run past the cache and the one through what it leaves. -/
theorem comparative_runs {c : Catalog} (ht : c.get? t.id = some t) (cache : Cache) {iterations : Nat}
    (hi : 1 ≤ iterations) (samples : Nat) :
    let past : BenchmarkRun := ⟨t.id, iterations, samples, false⟩
    let through : BenchmarkRun := ⟨t.id, iterations, samples, true⟩
    let left := finish t past cache
    let last := finish t through left.cache
    comparative c cache t.id iterations samples = (.ok (measured past t left, measured through t last), last.cache) ∧
      last.cache = (answers Cache.answer cache.clearEntries ((comparativeSteps t iterations samples).map t.ask)).2 := by
  intro past through left last
  have hne : iterations ≠ 0 := by omega
  constructor
  · unfold comparative
    rw [run_eq (r := past) hne ht]
    dsimp only
    rw [run_eq (r := through) hne ht]
  · have hleft : left.cache = (answers Cache.answer cache.clearEntries ((steps t past).map t.ask)).2 :=
      finish_cache past cache
    have hlast : last.cache = (answers Cache.answer left.cache ((steps t through).map t.ask)).2 :=
      finish_cache through left.cache
    rw [comparativeSteps, List.map_append, answers_append, hlast, hleft]

/-- What a comparative benchmark leaves behind it and counts, in terms of what is held. -/
theorem comparative_held {c : Catalog} (hc : c.Indexed) (ht : t ∈ c.conversions) {cache : Cache}
    (hr : cache.Reachable) (hon : cache.settings.enabled = true) {iterations samples : Nat} (hi : 1 ≤ iterations)
    (httl : duration c cache t.id iterations samples < cache.settings.ttl) :
    ∃ results after, comparative c cache t.id iterations samples = (.ok results, after) ∧
      Counted t.id (t.lookups cache.settings.capacity [] (traffic t iterations samples)) cache after ∧
      t.Fills (t.retainAll cache.settings.capacity [] (traffic t iterations samples)) after := by
  obtain ⟨q, hq⟩ := hr.refines
  obtain ⟨hruns, hcache⟩ := comparative_runs (hc.get?_iff.mpr ⟨ht, rfl⟩) cache hi samples
  obtain ⟨before, hbefore⟩ := comparativeSteps_eq (t := t) hi samples
  have hsteps := reduceOption_comparativeSteps (t := t) iterations samples
  rw [hbefore, List.reduceOption_append, show [none].reduceOption = ([] : List Json) from rfl, List.append_nil]
    at hsteps
  rw [hbefore, List.map_append, answers_append] at hcache
  rw [duration, hruns] at httl
  dsimp only at httl
  rw [hcache] at httl
  have hempty : Carries t cache.settings cache.clock.now [] { q with items := [] } :=
    ⟨hq.settings.symm, Nat.le_of_eq (congrArg Clock.now hq.clock), .nil⟩
  have hpos : 0 < cache.settings.capacity := hq.settings ▸ hq.positive
  have hnormal : ∀ v ∈ before.reduceOption, v.IsNormal := by
    rw [hsteps]
    exact fun v => isNormal_of_mem_traffic
  obtain ⟨hcounted, hcarries⟩ := hempty.answers hq.clearEntries hon hpos httl hnormal (Nat.le_refl _)
  rw [hsteps] at hcounted hcarries
  refine ⟨_, _, hruns, ?_, ?_⟩
  · rw [hcache]
    exact hcounted.congr rfl rfl
  · rw [hcache]
    exact (hcarries.withClock (Clock.precedes_look _)).fills (hq.clearEntries.answers _).2.look

end

end Benchmark

end FieldBridge
