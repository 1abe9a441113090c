import FieldBridge.Benchmark.Plan
import FieldBridge.Proofs.Benchmark.Traffic

/-!
# The course of a plan

A plan is a list of runs, where a full benchmark calls itself conversion by conversion.
Both make the same runs in turn. What a plan tells on the way follows from the runs that
can be made: they are told in full, and the first one that cannot be made is told to have
started, no more.
-/

namespace FieldBridge

def BenchmarkRun.refusal (r : BenchmarkRun) : Error :=
  if r.iterations = 0 then .noIterations r.conversion else .conversionNotFound r.conversion

/-- A result without the times that were measured. -/
def BenchmarkResult.untimed (r : BenchmarkResult) : BenchmarkResult := { r with totalTime := 0, averageTime := 0 }

theorem except_map_cons {ε α β : Type} (x : Except ε (List α)) (a : α) (f : α → β) :
    (x.map (a :: ·)).map (·.map f) = (x.map (·.map f)).map (f a :: ·) := by
  cases x <;> rfl

namespace Benchmark
variable (c : Catalog)

theorem execute_of_refused {α : Type} {r : BenchmarkRun} (hr : r.iterations = 0 ∨ c.get? r.conversion = none)
    (watch : Watch α) (cache : Cache) : execute c watch cache r = ([], .error r.refusal, cache) := by
  unfold execute BenchmarkRun.refusal
  by_cases hi : r.iterations = 0
  · simp [hi]
  · have hnone := hr.resolve_left hi
    simp [hi, hnone]

/-- A run is refused and leaves the cache, or it is made, whatever the cache is like. -/
theorem run_cases (r : BenchmarkRun) :
    ((r.iterations = 0 ∨ c.get? r.conversion = none) ∧ ∀ cache, run c cache r = (.error r.refusal, cache)) ∨
      ∃ t, r.iterations ≠ 0 ∧ c.get? r.conversion = some t ∧
        ∀ cache, run c cache r = (.ok (measured r t (finish t r cache)), (finish t r cache).cache) := by
  by_cases hi : r.iterations = 0
  · refine .inl ⟨.inl hi, ?_⟩
    intro cache
    simp [run, execute_of_refused c (.inl hi)]
  · cases ht : c.get? r.conversion with
    | none =>
      refine .inl ⟨.inr rfl, ?_⟩
      intro cache
      simp [run, execute_of_refused c (.inr ht)]
    | some t => exact .inr ⟨t, hi, rfl, run_eq hi ht⟩

/-! ## Two runs side by side -/

section
variable {t : Conversion} {cached : Bool} {vs : List Json} {R : Cache × Nat → Cache × Nat → Prop}

theorem pass_keeps (hstep : ∀ v ∈ vs, ∀ x y, R x y → R (step t cached x v) (step t cached y v)) {x y : Cache × Nat}
    (h : R x y) : R (pass t cached vs x) (pass t cached vs y) := by
  rw [pass, pass]
  induction vs generalizing x y with
  | nil => exact h
  | cons v vs ih =>
    have hone := hstep v List.mem_cons_self x y h
    exact ih (fun u hu => hstep u (List.mem_cons_of_mem _ hu)) hone

/-- What looks at the clock and single steps keep of two runs, all their iterations keep. -/
theorem iterate_lap_keeps (hlook : ∀ x y, R x y → R (x.1.look, x.2) (y.1.look, y.2))
    (hstep : ∀ v ∈ vs, ∀ x y, R x y → R (step t cached x v) (step t cached y v)) (n : Nat) {x y : State}
    (h : R (x.cache, x.failures) (y.cache, y.failures)) :
    R (((lap t cached vs)^[n] x).cache, ((lap t cached vs)^[n] x).failures)
      (((lap t cached vs)^[n] y).cache, ((lap t cached vs)^[n] y).failures) := by
  induction n generalizing x y with
  | zero => exact h
  | succ n ih => exact ih (hlook _ _ (pass_keeps hstep (hlook _ _ h)))

end

/-! ## Runs in turn -/

/-- Runs one after another, until one fails. -/
def inTurn : List BenchmarkRun → Cache → Except Error (List BenchmarkResult) × Cache
  | [], cache => (.ok [], cache)
  | r :: rest, cache =>
    match run c cache r with
    | (.error e, cache) => (.error e, cache)
    | (.ok result, cache) => ((inTurn rest cache).1.map (result :: ·), (inTurn rest cache).2)

theorem inTurn_append (rs rest : List BenchmarkRun) (cache : Cache) : inTurn c (rs ++ rest) cache =
    match inTurn c rs cache with
    | (.error e, cache) => (.error e, cache)
    | (.ok results, cache) => ((inTurn c rest cache).1.map (results ++ ·), (inTurn c rest cache).2) := by
  induction rs generalizing cache with
  | nil =>
    simp only [List.nil_append, inTurn]
    cases inTurn c rest cache with
    | mk outcome after => cases outcome <;> rfl
  | cons r rs ih =>
    simp only [List.cons_append, inTurn, ih]
    obtain ⟨-, hrun⟩ | ⟨t, -, -, hrun⟩ := run_cases c r
    · simp [hrun]
    · simp only [hrun]
      cases inTurn c rs (finish t r cache).cache with
      | mk middle after =>
        cases middle with
        | error e => rfl
        | ok results => cases h : (inTurn c rest after).1 <;> simp [Except.map, h]

theorem comparative_inTurn (cache : Cache) (id : String) (iterations samples : Nat) :
    inTurn c (Plan.comparative id iterations samples) cache =
      ((comparative c cache id iterations samples).1.map fun pair => [pair.1, pair.2],
        (comparative c cache id iterations samples).2) := by
  unfold Plan.comparative comparative
  simp only [inTurn]
  cases run c cache ⟨id, iterations, samples, false⟩ with
  | mk first after =>
    cases first with
    | error e => rfl
    | ok without =>
      cases h : run c after ⟨id, iterations, samples, true⟩ with
      | mk second after' => cases second <;> simp [Except.map, h]

theorem comparativeEach_inTurn (iterations samples : Nat) (ts : List Conversion) (cache : Cache) :
    inTurn c (ts.flatMap fun t => Plan.comparative t.id iterations samples) cache =
      comparativeEach c iterations samples ts cache := by
  induction ts generalizing cache with
  | nil => rfl
  | cons t ts ih =>
    rw [List.flatMap_cons, inTurn_append, comparative_inTurn, comparativeEach]
    cases comparative c cache t.id iterations samples with
    | mk pair after =>
      cases pair with
      | error e => rfl
      | ok pair => simp [Except.map, ih]

theorem all_inTurn (cache : Cache) (iterations samples : Nat) :
    inTurn c (Plan.all c iterations samples) cache = all c cache iterations samples :=
  comparativeEach_inTurn c iterations samples (benchmarkable c) cache

/-! ## Ended early -/

section
variable {α : Type} {watch whole : Watch α} (hsame : ∀ k, (watch k).1 = (whole k).1) (hwhole : ∀ k, (whole k).2 = none)
include hsame hwhole

theorem iterate_cut (t : Conversion) (cached : Bool) (samples : List Json) (n made : Nat) (state : State) :
    iterate t cached samples watch n made state = iterate t cached samples whole n made state ∨
      ∃ told e after, (∃ k, (watch k).2 = some e) ∧
        iterate t cached samples watch n made state = ((told, some e), after) ∧
        told <+: (iterate t cached samples whole n made state).1.1 := by
  induction n generalizing made state with
  | zero => exact .inl rfl
  | succ n ih =>
    have htold := hsame (made + 1)
    have hgoes := hwhole (made + 1)
    simp only [iterate]
    cases hk : whole (made + 1) with
    | mk told ended =>
      rw [hk] at htold hgoes
      obtain rfl : ended = none := hgoes
      cases hw : watch (made + 1) with
      | mk told' ended =>
        rw [hw] at htold
        obtain rfl : told' = told := htold
        cases ended with
        | some e => exact .inr ⟨told', e, _, ⟨made + 1, by simp [hw]⟩, rfl, List.prefix_append _ _⟩
        | none =>
          obtain heq | ⟨more, e, after, hend, heq, hprefix⟩ := ih (made + 1) (lap t cached samples state)
          · exact .inl (by simp only [heq])
          · refine .inr ⟨told' ++ more, e, after, hend, by simp only [heq], ?_⟩
            exact (List.prefix_append_right_inj _).mpr hprefix

theorem execute_cut (c : Catalog) (cache : Cache) (r : BenchmarkRun) :
    execute c watch cache r = execute c whole cache r ∨
      ∃ told e after, (∃ k, (watch k).2 = some e) ∧ execute c watch cache r = (told, .error e, after) ∧
        told <+: (execute c whole cache r).1 := by
  unfold execute
  by_cases hi : r.iterations = 0
  · simp [hi]
  · cases c.get? r.conversion with
    | none => simp [hi]
    | some t =>
      simp only [hi, if_false]
      obtain heq | ⟨told, e, after, hend, heq, hprefix⟩ := iterate_cut hsame hwhole t r.cached
        (t.source.samples r.samples) r.iterations 0 (start r cache)
      · exact .inl (by simp only [heq])
      · refine .inr ⟨told, e, after.cache, hend, by simp only [heq], ?_⟩
        rw [iterate_of_never t r.cached hwhole] at hprefix ⊢
        exact hprefix

end

end Benchmark

/-! ## What is told -/

namespace Progress

def isIteration : Progress → Bool
  | iteration .. => true
  | _ => false

def isFinished : Progress → Bool
  | finished .. => true
  | _ => false

end Progress

namespace BenchmarkRun

def ticks (r : BenchmarkRun) (number : Nat) : List Progress :=
  (List.range' 1 r.iterations).map (Progress.iteration number · r.iterations)

/-- What is told of a run that is made to its end. -/
def events (r : BenchmarkRun) (total number : Nat) (result : BenchmarkResult) : List Progress :=
  .started number total r.conversion r.cached :: r.ticks number ++ [.finished number result]

theorem countP_ticks (r : BenchmarkRun) (number : Nat) : (r.ticks number).countP Progress.isIteration = r.iterations ∧
    (r.ticks number).countP Progress.isFinished = 0 := by
  simp [ticks, List.countP_map, Function.comp_def, Progress.isIteration, Progress.isFinished]

end BenchmarkRun

/-- A run that can be made. -/
def Catalog.admits (c : Catalog) (r : BenchmarkRun) : Bool :=
  r.iterations != 0 && c.conversions.any (·.id == r.conversion)

theorem Catalog.Indexed.admits_iff {c : Catalog} (hc : c.Indexed) (r : BenchmarkRun) :
    c.admits r = true ↔ ¬(r.iterations = 0 ∨ c.get? r.conversion = none) := by
  simp [Catalog.admits, hc.get?_eq_none]

namespace Plan

/-- What is told of runs that are made to their end, the first of which has the given number. -/
def events (total number : Nat) (runs : List BenchmarkRun) (results : List BenchmarkResult) : List Progress :=
  ((runs.zip results).zipIdx number).flatMap fun p => p.1.1.events total p.2 p.1.2

theorem events_cons (total number : Nat) (r : BenchmarkRun) (rest : List BenchmarkRun) (result : BenchmarkResult)
    (results : List BenchmarkResult) : events total number (r :: rest) (result :: results) =
      r.events total number result ++ events total (number + 1) rest results := by
  simp [events]

theorem countP_events (total : Nat) {number : Nat} {runs : List BenchmarkRun} {results : List BenchmarkResult}
    (h : results.length = runs.length) :
    (events total number runs results).countP Progress.isIteration = totalIterations runs := by
  induction runs generalizing number results with
  | nil => rfl
  | cons r rest ih =>
    cases results with
    | nil => cases h
    | cons result results =>
      have hrun : (r.events total number result).countP Progress.isIteration = r.iterations := by
        simp [BenchmarkRun.events, Progress.isIteration, r.countP_ticks number]
      rw [events_cons, List.countP_append, hrun, ih (Nat.succ.inj h)]
      rfl

variable {c : Catalog} {cancelled : Nat → Nat → Bool}

section
variable (flag : Nat → Bool) (total number : Nat) {r : BenchmarkRun} {t : Conversion} (hi : r.iterations ≠ 0)
  (ht : c.get? r.conversion = some t) (cache : Cache)
include hi ht

theorem execute_watch (hnever : ∀ made, flag made = false) :
    Benchmark.execute c (watch flag number total r.iterations) cache r = (r.ticks number,
      .ok (Benchmark.measured r t (Benchmark.finish t r cache)), (Benchmark.finish t r cache).cache) := by
  have hwatch : ∀ k, (watch flag number total r.iterations k).2 = none := by
    intro k
    simp [watch, hnever]
  rw [Benchmark.execute_of_never hwatch hi ht, BenchmarkRun.ticks, List.map_eq_flatMap]
  rfl

theorem execute_watch_cut :
    Benchmark.execute c (watch flag number total r.iterations) cache r = (r.ticks number,
      .ok (Benchmark.measured r t (Benchmark.finish t r cache)), (Benchmark.finish t r cache).cache) ∨
    ∃ early after, Benchmark.execute c (watch flag number total r.iterations) cache r =
      (early, .error (.cancelled number total), after) ∧ early <+: r.ticks number := by
  have hwhole := execute_watch (fun _ => false) total number hi ht cache fun _ => rfl
  have hsame : ∀ k, (watch flag number total r.iterations k).1 =
      (watch (fun _ => false) number total r.iterations k).1 := fun _ => rfl
  obtain heq | ⟨early, e, after, ⟨k, hk⟩, heq, hprefix⟩ := Benchmark.execute_cut hsame (fun _ => rfl) c cache r
  · exact .inl (heq.trans hwhole)
  · rw [hwhole] at hprefix
    refine .inr ⟨early, after, ?_, hprefix⟩
    by_cases hset : flag k <;> simp [watch, hset] at hk
    rw [heq, hk]

end

section
variable (hnever : ∀ number made, cancelled number made = false) (total number : Nat)
include hnever

theorem carryOut_cons (r : BenchmarkRun) (rest : List BenchmarkRun) (cache : Cache) :
    carryOut c cancelled total number (r :: rest) cache =
      match Benchmark.run c cache r with
      | (.error e, cache) => ⟨[.started number total r.conversion r.cached], .error e, cache⟩
      | (.ok result, cache) =>
        let more := carryOut c cancelled total (number + 1) rest cache
        ⟨r.events total number result ++ more.progress, more.outcome.map (result :: ·), more.cache⟩ := by
  rw [carryOut]
  obtain ⟨hr, hrun⟩ | ⟨t, hi, ht, hrun⟩ := Benchmark.run_cases c r
  · simp [hnever, hrun, Benchmark.execute_of_refused c hr]
  · simp [hnever, hrun, execute_watch _ total number hi ht cache (hnever number), BenchmarkRun.events]

theorem carryOut_inTurn (runs : List BenchmarkRun) (cache : Cache) :
    ((carryOut c cancelled total number runs cache).outcome, (carryOut c cancelled total number runs cache).cache) =
      Benchmark.inTurn c runs cache := by
  induction runs generalizing number cache with
  | nil => rfl
  | cons r rest ih =>
    rw [carryOut_cons hnever, Benchmark.inTurn]
    cases Benchmark.run c cache r with
    | mk first after =>
      cases first with
      | error e => rfl
      | ok result =>
        dsimp only
        rw [← ih (number + 1) after]

theorem carryOut_told (hc : c.Indexed) (runs : List BenchmarkRun) (cache : Cache) :
    ∃ results after, Benchmark.inTurn c (runs.takeWhile c.admits) cache = (.ok results, after) ∧
      results.length = (runs.takeWhile c.admits).length ∧
      carryOut c cancelled total number runs cache =
        match runs.find? (!c.admits ·) with
        | none => ⟨events total number (runs.takeWhile c.admits) results, .ok results, after⟩
        | some r => ⟨events total number (runs.takeWhile c.admits) results ++
            [.started (number + results.length) total r.conversion r.cached], .error r.refusal, after⟩ := by
  induction runs generalizing number cache with
  | nil => exact ⟨[], cache, rfl, rfl, rfl⟩
  | cons r rest ih =>
    rw [carryOut_cons hnever]
    -- a refused run ends the plan, and one that is made leaves its cache to the rest
    obtain ⟨hr, hrun⟩ | ⟨t, hi, ht, hrun⟩ := Benchmark.run_cases c r
    · have hadmits : c.admits r = false := by simpa [hr] using hc.admits_iff r
      simp only [List.takeWhile_cons, List.find?_cons, hadmits, hrun]
      exact ⟨[], cache, rfl, rfl, rfl⟩
    · have hadmits : c.admits r = true := by simpa [hi, ht] using hc.admits_iff r
      obtain ⟨results, after, hturn, hlength, hcourse⟩ := ih (number + 1) (Benchmark.finish t r cache).cache
      simp only [List.takeWhile_cons, List.find?_cons, hadmits, hrun, if_true, Benchmark.inTurn, hturn, hcourse]
      refine ⟨_, after, rfl, congrArg Nat.succ hlength, ?_⟩
      cases rest.find? (!c.admits ·) with
      | none => simp [Except.map, events_cons]
      | some k => simp [Except.map, events_cons, Nat.add_comm, Nat.add_left_comm]

end

theorem carryOut_cut (cancelled : Nat → Nat → Bool) (total number : Nat) (runs : List BenchmarkRun) (cache : Cache) :
    let cut := carryOut c cancelled total number runs cache
    let whole := carryOut c (fun _ _ => false) total number runs cache
    cut = whole ∨ cut.progress <+: whole.progress ∧
      cut.outcome = .error (.cancelled (number + cut.progress.countP Progress.isFinished) total) := by
  induction runs generalizing number cache with
  | nil => exact .inl rfl
  | cons r rest ih =>
    by_cases hcancelled : cancelled number 0
    · refine .inr ?_
      simp [carryOut, hcancelled]
    · obtain ⟨hr, -⟩ | ⟨t, hi, ht, -⟩ := Benchmark.run_cases c r
      · exact .inl (by simp [carryOut, hcancelled, Benchmark.execute_of_refused c hr])
      · have hwhole := execute_watch (fun _ => false) total number hi ht cache fun _ => rfl
        have hnone := (r.countP_ticks number).2
        simp only [carryOut, hcancelled, hwhole]
        obtain heq | ⟨early, after, heq, hprefix⟩ := execute_watch_cut (cancelled number) total number hi ht cache
        · obtain hrest | ⟨hrest, houtcome⟩ := ih (number + 1) (Benchmark.finish t r cache).cache
          · exact .inl (by simp [heq, hrest])
          · refine .inr ?_
            simp [heq, houtcome, hrest, hnone, Except.map, Progress.isFinished, List.countP_cons, Nat.add_assoc,
              Nat.add_comm 1, List.prefix_append_right_inj]
        -- ended on the way, the run has told iterations only
        · have hearly : early.countP Progress.isFinished = 0 := Nat.le_zero.mp (hnone ▸ hprefix.sublist.countP_le)
          refine .inr ?_
          simp [heq, hearly, Progress.isFinished, hprefix.trans (List.prefix_append _ _)]

theorem perform_inTurn (c : Catalog) (p : Plan) (cache : Cache) :
    ((p.perform c false cache).outcome, (p.perform c false cache).cache) = Benchmark.inTurn c p cache :=
  carryOut_inTurn (fun _ _ => rfl) _ _ p cache

/-- What a plan tells, yields and leaves. Cancelled before its start it does nothing. Otherwise the
runs before the first refused one are made in turn and told in full. Cancelled on the way, it has
told a part of that and says how many runs were made to their end. -/
theorem carryOut_protocol (ts : List Conversion) (cancelled : Nat → Nat → Bool) (p : Plan) (cache : Cache) :
    let c := Catalog.empty.offerAll ts
    let course := carryOut c cancelled p.length 0 p cache
    let made := p.takeWhile c.admits
    (cancelled 0 0 = true → p ≠ [] → course = ⟨[], .error (.cancelled 0 p.length), cache⟩) ∧
    (p = [] ∨ (∀ number completed, cancelled number completed = false) → ∃ results after,
      Benchmark.inTurn c made cache = (.ok results, after) ∧ results.length = made.length ∧
      match p.find? (!c.admits ·) with
      | none => course = ⟨events p.length 0 p results, .ok results, after⟩ ∧
          course.progress.countP Progress.isIteration = p.totalIterations
      | some r => course = ⟨events p.length 0 made results ++
          [.started results.length p.length r.conversion r.cached], .error r.refusal, after⟩) ∧
    (course = carryOut c (fun _ _ => false) p.length 0 p cache ∨
      course.progress <+: (carryOut c (fun _ _ => false) p.length 0 p cache).progress ∧
        course.outcome = .error (.cancelled (course.progress.countP Progress.isFinished) p.length)) := by
  have hc : (Catalog.empty.offerAll ts).Indexed := (Catalog.orderly_empty.offerAll ts).toIndexed
  intro c course made
  refine ⟨?_, ?_, ?_⟩
  · intro hcancelled hp
    cases p with
    | nil => exact absurd rfl hp
    | cons r rest => simp [course, carryOut, hcancelled]
  · rintro (rfl | hnever)
    · exact ⟨[], cache, rfl, rfl, rfl, rfl⟩
    · obtain ⟨results, after, hturn, hlength, hcourse⟩ := carryOut_told hnever p.length 0 hc p cache
      refine ⟨results, after, hturn, hlength, ?_⟩
      cases hrefused : p.find? (!c.admits ·) with
      | none =>
        have hall : p.takeWhile (Catalog.empty.offerAll ts).admits = p := by
          rw [List.takeWhile_eq_self_iff]
          simpa using hrefused
        rw [hall] at hlength hcourse
        rw [hrefused] at hcourse
        have hprogress : course.progress = events p.length 0 p results := congrArg Course.progress hcourse
        refine ⟨hcourse, ?_⟩
        rw [hprogress, countP_events p.length hlength]
      | some r =>
        rw [hrefused, Nat.zero_add] at hcourse
        exact hcourse
  · simpa using carryOut_cut (c := c) cancelled p.length 0 p cache

/-- One run is made, and the next one is of a conversion that nobody registered. -/
theorem carryOut_protocol_unregistered :
    let tick : Conversion :=
      { id := "tick", source := .checkbox, target := .email, name := "Tick", description := "", impact := .low
        complexity := .low, benchmarkable := true, sample := ⟨.bool true, .string "yes"⟩
        run := fun v _ =>
          match v with
          | .bool true => .ok (.string "yes")
          | _ => .error (.rejected "not ticked") }
    let c : Catalog := Catalog.empty.offerAll [tick]
    let cache : Cache := .empty ⟨1, 1000, true⟩ { pace := fun _ => 700 }
    let p : Plan := [⟨"tick", 2, 1, true⟩, ⟨"tock", 3, 1, true⟩, ⟨"tick", 0, 1, true⟩]
    carryOut c (fun _ _ => true) 3 0 p cache = ⟨[], .error (.cancelled 0 3), cache⟩ ∧
      ∃ results after, Benchmark.inTurn c [⟨"tick", 2, 1, true⟩] cache = (.ok results, after) ∧ results.length = 1 ∧
        carryOut c (fun _ _ => false) 3 0 p cache =
          ⟨events 3 0 [⟨"tick", 2, 1, true⟩] results ++ [.started results.length 3 "tock" true],
            .error (.conversionNotFound "tock"), after⟩ := by
  intro tick c cache p
  have hmade : p.takeWhile c.admits = [⟨"tick", 2, 1, true⟩] := by decide
  have hrefused : p.find? (!c.admits ·) = some ⟨"tock", 3, 1, true⟩ := by decide
  refine ⟨(carryOut_protocol [tick] (fun _ _ => true) p cache).1 rfl (List.cons_ne_nil _ _), ?_⟩
  obtain ⟨results, after, hturn, hlength, hcourse⟩ :=
    (carryOut_protocol [tick] (fun _ _ => false) p cache).2.1 (.inr fun _ _ => rfl)
  rw [hmade] at hturn hlength hcourse
  rw [hrefused] at hcourse
  exact ⟨results, after, hturn, hlength, hcourse⟩

end Plan

end FieldBridge
