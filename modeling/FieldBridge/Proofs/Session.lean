import FieldBridge.Proofs.Benchmark.Transparency
import FieldBridge.Proofs.Mapping.Transparency

/-!
# Sessions on one cache

A session is a catalog and a cache, both empty at first. Conversions are registered and
applied, records mapped and benchmarks run, and the cache is looked into, purged and
set up anew, in any order. No result shows that there is a cache.
-/

namespace FieldBridge

structure Session where
  catalog : Catalog
  cache : Cache

/-- What can be done in a session. Nothing puts a result of its own into the cache. -/
inductive Command where
  | register (t : Conversion)
  | apply (source target : Kind) (v : Value) (o : Bag)
  | applyById (id : String) (v : Value) (o : Bag)
  | tryApply (id : String) (v : Value) (o : Bag)
  | mapRecord (sources : FieldTable SourceField) (destinations : FieldTable DestinationField) (rules : List Rule)
    (record : Row)
  | benchmark (r : BenchmarkRun)
  | comparative (id : String) (iterations samples : Nat)
  | benchmarkAll (iterations samples : Nat)
  | perform (cancelled : Bool) (p : Plan)
  | get (id : String) (v : Value) (o : Bag)
  | invalidate (id : String) (v : Value) (o : Bag)
  | invalidateAll (id : String)
  | purgeExpired
  | clear
  | clearEntries
  | resetStats
  | updateSettings (u : SettingsUpdate)
  | wait (nanoseconds : Nat)

namespace Session

def perform (s : Session) : Command → Session
  | .register t => { s with catalog := (s.catalog.register t).2 }
  | .apply source target v o => { s with cache := (s.catalog.apply s.cache source target v o).cache }
  | .applyById id v o => { s with cache := (s.catalog.applyById s.cache id v o).cache }
  | .tryApply id v o => { s with cache := (s.catalog.tryApply s.cache id v o).2 }
  | .mapRecord sources destinations rules record =>
    { s with cache := (Schema.mapRecord ⟨s.catalog, sources, destinations⟩ (rules.map (·.1)) s.cache record).cache }
  | .benchmark r => { s with cache := (Benchmark.run s.catalog s.cache r).2 }
  | .comparative id iterations samples =>
    { s with cache := (Benchmark.comparative s.catalog s.cache id iterations samples).2 }
  | .benchmarkAll iterations samples => { s with cache := (Benchmark.all s.catalog s.cache iterations samples).2 }
  | .perform cancelled p => { s with cache := (p.perform s.catalog cancelled s.cache).cache }
  | .get id v o => { s with cache := (s.cache.get id v o).2 }
  | .invalidate id v o => { s with cache := (s.cache.invalidate id v o).2 }
  | .invalidateAll id => { s with cache := (s.cache.invalidateAll id).2 }
  | .purgeExpired => { s with cache := s.cache.purgeExpired.2 }
  | .clear => { s with cache := s.cache.clear }
  | .clearEntries => { s with cache := s.cache.clearEntries }
  | .resetStats => { s with cache := s.cache.resetStats }
  | .updateSettings u => { s with cache := (s.cache.updateSettings u).2 }
  | .wait nanoseconds => { s with cache := s.cache.wait nanoseconds }

/-- What every session keeps: ids and kinds find what was registered, and the cache is honest. -/
structure Sound (s : Session) : Prop where
  indexed : s.catalog.Indexed
  honest : Honest s.catalog s.cache

theorem Sound.perform {s : Session} (h : s.Sound) (command : Command) : (s.perform command).Sound := by
  obtain ⟨hi, hh⟩ := h
  cases command with
  | register t => exact ⟨hi.after_register t, hh.register hi t⟩
  | apply source target v o => exact ⟨hi, hh.apply hi source target v o⟩
  | applyById id v o => exact ⟨hi, hh.applyById hi id v o⟩
  | tryApply id v o => exact ⟨hi, (hh.tryApply hi id v o).1⟩
  | mapRecord sources destinations rules record =>
    exact ⟨hi, (Schema.mapRecord_alike (s := ⟨s.catalog, sources, destinations⟩) hi hh hh rules record).left⟩
  | benchmark r => exact ⟨hi, (Benchmark.run_alike hi hh hh r).left⟩
  | comparative id iterations samples => exact ⟨hi, (Benchmark.comparative_alike hi hh hh id iterations samples).left⟩
  | benchmarkAll iterations samples => exact ⟨hi, (Benchmark.comparativeEach_alike hi hh hh iterations samples _).left⟩
  | perform cancelled p => exact ⟨hi, (Plan.perform_alike hi hh hh cancelled p).left⟩
  | get id v o => exact ⟨hi, (hh.get id v o).1⟩
  | invalidate id v o => exact ⟨hi, hh.subset (Cache.entries_remove _ _)⟩
  | invalidateAll id => exact ⟨hi, hh.subset (Cache.entries_removeAll _ _)⟩
  | purgeExpired => exact ⟨hi, hh.subset (Cache.entries_removeAll _ _)⟩
  | clear => exact ⟨hi, hh.subset (List.nil_subset _)⟩
  | clearEntries => exact ⟨hi, hh.subset (List.nil_subset _)⟩
  | resetStats => exact ⟨hi, hh⟩
  | updateSettings u => exact ⟨hi, hh.updateSettings u⟩
  | wait nanoseconds => exact ⟨hi, hh⟩

/-- Does one thing after another. -/
def performAll (s : Session) (commands : List Command) : Session := commands.foldl perform s

theorem Sound.performAll {s : Session} (h : s.Sound) (commands : List Command) : (s.performAll commands).Sound := by
  induction commands generalizing s with
  | nil => exact h
  | cons command commands ih => exact ih (h.perform command)

/-- Every call gives what it would give without a cache, apart from the times that it measures. -/
structure Transparent (s : Session) : Prop where
  /-- what is found by an id or by kinds is what was registered -/
  indexed : s.catalog.Indexed
  tryApply : ∀ t ∈ s.catalog.conversions, ∀ (v : Value) (o : Bag),
    (s.catalog.tryApply s.cache t.id v o).1 = (t.run v o).mapError (.conversionFailed t.id)
  applyById : ∀ t ∈ s.catalog.conversions, ∀ (v : Value) (o : Bag),
    (s.catalog.applyById s.cache t.id v o).value =
      match t.run v o with
      | .ok result => result
      | .error _ => v
  unknown : ∀ id, (∀ t ∈ s.catalog.conversions, t.id ≠ id) → ∀ (v : Value) (o : Bag),
    s.catalog.tryApply s.cache id v o = (.error (.conversionNotFound id), s.cache) ∧
      (s.catalog.applyById s.cache id v o).value = v ∧ (s.catalog.applyById s.cache id v o).cache = s.cache
  apply : ∀ source target t, source ≠ target → s.catalog.find? source target = some t → ∀ (v : Value) (o : Bag),
    s.catalog.apply s.cache source target v o = s.catalog.applyById s.cache t.id v o
  unchanged : ∀ source target, source = target ∨ s.catalog.find? source target = none → ∀ (v : Value) (o : Bag),
    (s.catalog.apply s.cache source target v o).value = v ∧
      (s.catalog.apply s.cache source target v o).cache = s.cache
  get : ∀ id (v : Value) (o : Bag) result, (s.cache.get id v o).1 = some result →
    ∃ t ∈ s.catalog.conversions, t.id = id ∧ t.run v o = .ok result
  mapRecord : ∀ sources destinations (rules : List Rule) (record : Row),
    (Schema.mapRecord ⟨s.catalog, sources, destinations⟩ (rules.map (·.1)) s.cache record).record =
      (Schema.mapRecord ⟨s.catalog, sources, destinations⟩ (rules.map (·.1)) .absent record).record
  benchmark : ∀ r, (Benchmark.run s.catalog s.cache r).1.map (·.untimed) =
    (Benchmark.run s.catalog .absent r).1.map (·.untimed)
  comparative : ∀ id iterations samples,
    (Benchmark.comparative s.catalog s.cache id iterations samples).1.map (fun x => (x.1.untimed, x.2.untimed)) =
      (Benchmark.comparative s.catalog .absent id iterations samples).1.map fun x => (x.1.untimed, x.2.untimed)
  benchmarkAll : ∀ iterations samples, (Benchmark.all s.catalog s.cache iterations samples).1.map (·.map (·.untimed)) =
    (Benchmark.all s.catalog .absent iterations samples).1.map (·.map (·.untimed))
  perform : ∀ cancelled (p : Plan), (p.perform s.catalog cancelled s.cache).outcome.map (·.map (·.untimed)) =
    (p.perform s.catalog cancelled .absent).outcome.map (·.map (·.untimed))

theorem Sound.transparent {s : Session} (h : s.Sound) : s.Transparent := by
  obtain ⟨hi, hh⟩ := h
  have ha : Honest s.catalog .absent := .empty _ _ _
  have htry : ∀ t ∈ s.catalog.conversions, ∀ (v : Value) (o : Bag),
      (s.catalog.tryApply s.cache t.id v o).1 = (t.run v o).mapError (.conversionFailed t.id) := fun t ht v o =>
    (hh.tryApply hi t.id v o).2.1 t (hi.get?_iff.mpr ⟨ht, rfl⟩)
  refine ⟨hi, htry, ?_, ?_, fun source target t hs hf v o => hi.apply_eq_applyById hs hf _ _ _, ?_, ?_, ?_, ?_, ?_, ?_,
    ?_⟩
  · intro t ht v o
    rw [(s.catalog.applyById_eq_tryApply _ _ _ _).1, htry t ht]
    cases t.run v o <;> rfl
  · intro id hid v o
    have hget := hi.get?_eq_none.mpr hid
    rw [Catalog.tryApply, Catalog.applyById, hget]
    exact ⟨rfl, rfl, rfl⟩
  · intro source target hno v o
    rw [Catalog.apply]
    split
    · exact ⟨rfl, rfl⟩
    · rename_i hs
      rw [hno.resolve_left hs]
      exact ⟨rfl, rfl⟩
  · intro id v o result hr
    obtain ⟨t, ht, hrun⟩ := (hh.get id v o).2 result hr
    exact ⟨t, (hi.get?_iff.mp ht).1, (hi.get?_iff.mp ht).2, hrun⟩
  · intro sources destinations rules record
    exact congrArg Prod.fst
      (Schema.mapRecord_alike (s := ⟨s.catalog, sources, destinations⟩) hi hh ha rules record).result
  · exact fun r => (Benchmark.run_alike hi hh ha r).result
  · exact fun id iterations samples => (Benchmark.comparative_alike hi hh ha id iterations samples).result
  · exact fun iterations samples => (Benchmark.comparativeEach_alike hi hh ha iterations samples _).result
  · exact fun cancelled p => (Plan.perform_alike hi hh ha cancelled p).result

end Session

/-- **The cache does not show.** Whatever was done in a session that began with an empty catalog
and an empty cache, and whatever time it took, every call gives what it would give without a cache. -/
theorem session_transparent {settings : CacheSettings} (h : 0 < settings.capacity) (clock : Clock)
    (commands : List Command) : ∃ cache, Cache.withSettings settings clock = .ok cache ∧
      (Session.performAll ⟨.empty, cache⟩ commands).Transparent := by
  have hsound : Session.Sound ⟨.empty, .empty settings clock⟩ := ⟨Catalog.indexed_empty, .empty _ _ _⟩
  exact ⟨.empty settings clock, if_neg (Nat.ne_of_gt h), (hsound.performAll commands).transparent⟩

/-- Room for one result, a failure, a cache that is turned off and on again, and a benchmark that
takes longer than results live. -/
theorem session_transparent_shout :
    let settings : CacheSettings := ⟨1, 1000, true⟩
    let clock : Clock := { pace := fun _ => 400 }
    let shout : Conversion :=
      { id := "shout", source := .text, target := .number, name := "Shout", description := "", impact := .low
        complexity := .low, benchmarkable := true, sample := ⟨.string "a", .string "a!"⟩
        run := fun v _ =>
          match v with
          | .string s => .ok (.string (s ++ "!"))
          | _ => .error (.rejected "not a text") }
    let none : Bag := ⟨.empty, rfl⟩
    let commands : List Command :=
      [.register shout, .tryApply "shout" ⟨.string "a", rfl⟩ none, .apply .text .number ⟨.string "b", rfl⟩ none,
        .updateSettings { enabled := some false }, .applyById "shout" ⟨.null, rfl⟩ none,
        .updateSettings { enabled := some true }, .comparative "shout" 2 2, .wait 1000, .purgeExpired]
    0 < settings.capacity ∧ ∃ cache, Cache.withSettings settings clock = .ok cache ∧
      (Session.performAll ⟨.empty, cache⟩ commands).Transparent :=
  ⟨by decide, session_transparent (by decide) _ _⟩

end FieldBridge
