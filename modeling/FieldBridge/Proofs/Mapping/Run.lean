import FieldBridge.Mapping.Run
import FieldBridge.Proofs.Conversion.Apply
import FieldBridge.Proofs.Field.Table
import FieldBridge.Proofs.Keyed
import Mathlib.Data.List.Forall2

/-!
# Validation predicts mapping

What becomes of a rule when a record is mapped can be told from its validation and the
record, whatever is in the cache and whatever becomes of the other rules.
-/

namespace FieldBridge

/-- The issue that a validated rule comes to with a record. -/
def Validation.issue? (record : Keyed Json) (v : Validation) : Option MappingIssue :=
  match v.outcome with
  | .unknownSource => some ⟨v.destination, v.source, .unknownField, s!"Unknown source field '{v.source}'"⟩
  | .unknownDestination =>
    some ⟨v.destination, v.source, .unknownField, s!"Unknown destination field '{v.destination}'"⟩
  | .checked result =>
    if !v.isValid then some ⟨v.destination, v.source, .incompatible, result.message⟩
    else
      match Keyed.find? v.source record with
      | none | some .null =>
        some ⟨v.destination, v.source, .missingSourceValue, s!"No value for source field '{v.source}'"⟩
      | some _ => none

/-- The one outcome of a validated rule: its issue, or a value under its destination. -/
inductive Settles (record : Keyed Json) (v : Validation) : MappedRecord → Prop
  | issue {i : MappingIssue} (h : v.issue? record = some i) : Settles record v ⟨[], [i]⟩
  | value (h : v.issue? record = none) (x : Json) : Settles record v ⟨[(v.destination, x)], []⟩

/-- Adds what a rule came to: its values take the place of earlier ones. -/
def MappedRecord.merge (m more : MappedRecord) : MappedRecord :=
  ⟨more.values.foldl (fun values p => Keyed.insert p.1 p.2 values) m.values, m.issues ++ more.issues⟩

namespace Schema

def validation (s : Schema) (r : MappingRule) : Validation := ⟨r.source, r.destination, s.outcome r⟩

/-- What the rules come to one by one, each with the cache that those before it left. -/
def eachAlone (s : Schema) (record : Keyed Json) : List MappingRule → Cache → List MappedRecord
  | [], _ => []
  | r :: rules, cache =>
    let alone := s.mapRecord [r] cache record
    alone.record :: s.eachAlone record rules alone.cache

variable {s : Schema} {record : Keyed Json}

/-! ## One rule -/

theorem sourceValue?_eq (source : String) : sourceValue? record source =
    match Keyed.find? source record with
    | none | some .null => none
    | some value => some value := by
  rw [sourceValue?]
  cases Keyed.find? source record with
  | none => rfl
  | some value => cases value <;> rfl

theorem mapRecord_singleton (r : MappingRule) (cache : Cache) :
    s.mapRecord [r] cache record = s.step record (.start cache) r := rfl

/-- Earlier rules change what a rule comes to through the cache only. -/
theorem step_eq (m : MappingRun) (r : MappingRule) :
    s.step record m r =
      ⟨m.record.merge (s.mapRecord [r] m.cache record).record, (s.mapRecord [r] m.cache record).cache,
        m.warnings ++ (s.mapRecord [r] m.cache record).warnings⟩ := by
  rw [mapRecord_singleton]
  unfold step
  split
  · simp [MappingRun.report, MappingRun.start, MappedRecord.merge]
  · simp [MappingRun.report, MappingRun.start, MappedRecord.merge]
  · dsimp only
    split
    · simp [MappingRun.report, MappingRun.start, MappedRecord.merge]
    · split
      · simp [MappingRun.report, MappingRun.start, MappedRecord.merge]
      · unfold convert
        split
        · simp [MappingRun.store, MappingRun.start, MappedRecord.merge, Keyed.insert]
        · simp [MappingRun.store, MappingRun.start, MappedRecord.merge, Keyed.insert]

theorem step_unknownSource {r : MappingRule} (ho : s.outcome r = .unknownSource) (m : MappingRun) :
    s.step record m r = m.report r .unknownField s!"Unknown source field '{r.source}'" := by
  unfold outcome at ho
  unfold step
  cases hs : s.sources.get? r.source with
  | none => rfl
  | some source =>
    rw [hs] at ho
    cases ht : s.destinations.get? r.destination <;> rw [ht] at ho <;> cases ho

theorem step_unknownDestination {r : MappingRule} (ho : s.outcome r = .unknownDestination) (m : MappingRun) :
    s.step record m r = m.report r .unknownField s!"Unknown destination field '{r.destination}'" := by
  unfold outcome at ho
  unfold step
  cases hs : s.sources.get? r.source with
  | none =>
    rw [hs] at ho
    cases ho
  | some source =>
    cases ht : s.destinations.get? r.destination with
    | none => rfl
    | some destination =>
      rw [hs, ht] at ho
      cases ho

/-- The walk over a record checks a rule as the validation does. -/
theorem step_checked {fields : List DestinationField} (hd : FieldTable.ofList fields = .ok s.destinations)
    {r : MappingRule} {result : Compatibility} (ho : s.outcome r = .checked result) (record : Keyed Json) :
    ∃ (source : SourceField) (destination : DestinationField), destination.id = r.destination ∧
      result = s.catalog.check source.kind destination.kind r.conversion ∧
      ∀ m, s.step record m r =
        if result.status = .incompatible then m.report r .incompatible result.message
        else
          match sourceValue? record r.source with
          | none => m.report r .missingSourceValue s!"No value for source field '{r.source}'"
          | some value => s.convert m r destination result.conversion value := by
  unfold outcome at ho
  unfold step
  cases hs : s.sources.get? r.source with
  | none =>
    rw [hs] at ho
    cases ho
  | some source =>
    cases ht : s.destinations.get? r.destination with
    | none =>
      rw [hs, ht] at ho
      cases ho
    | some destination =>
      rw [hs, ht] at ho
      obtain rfl := Outcome.checked.inj ho
      exact ⟨source, destination, FieldTable.id_of_get? hd ht, rfl, fun m => rfl⟩

theorem convert_start {r : MappingRule} {destination : DestinationField} (hid : destination.id = r.destination)
    (conversion : Option String) (value : Json) (cache : Cache) :
    ∃ x, (s.convert (.start cache) r destination conversion value).record = ⟨[(r.destination, x)], []⟩ := by
  unfold convert
  rw [hid]
  cases conversion with
  | none => exact ⟨_, rfl⟩
  | some id => exact ⟨_, rfl⟩

theorem settles {fields : List DestinationField} (hd : FieldTable.ofList fields = .ok s.destinations)
    (r : MappingRule) (cache : Cache) : Settles record (s.validation r) (s.mapRecord [r] cache record).record := by
  rw [mapRecord_singleton]
  cases ho : s.outcome r with
  | unknownSource =>
    rw [step_unknownSource ho]
    exact .issue (by rw [validation, Validation.issue?, ho])
  | unknownDestination =>
    rw [step_unknownDestination ho]
    exact .issue (by rw [validation, Validation.issue?, ho])
  | checked result =>
    obtain ⟨source, destination, hid, -, hstep⟩ := step_checked hd ho record
    rw [hstep]
    split
    case isTrue hi =>
      have hv : (s.validation r).isValid = false := by
        simp [Validation.isValid, validation, ho, Compatibility.isMappable, hi]
      exact .issue (by rw [Validation.issue?, hv, validation, ho]; rfl)
    case isFalse hi =>
      have hv : (s.validation r).isValid = true := by
        simp [Validation.isValid, validation, ho, Compatibility.isMappable, hi]
      have hissue : (s.validation r).issue? record =
          match Keyed.find? r.source record with
          | none | some .null =>
            some ⟨r.destination, r.source, .missingSourceValue, s!"No value for source field '{r.source}'"⟩
          | some _ => none := by
        rw [Validation.issue?, hv, validation, ho]
        rfl
      rw [sourceValue?_eq]
      split
      case h_1 hnone =>
        refine .issue (hissue.trans ?_)
        split at hnone
        · rfl
        · rfl
        · cases hnone
      case h_2 value hsome =>
        obtain ⟨x, hx⟩ := convert_start (s := s) hid result.conversion value cache
        rw [hx]
        refine .value (hissue.trans ?_) x
        split at hsome
        · cases hsome
        · cases hsome
        · rfl

theorem classify_cases (c : Catalog) (destination source : Kind) :
    c.classify destination source = .direct ∨ (∃ t, c.classify destination source = .through t) ∨
      ∃ message, c.classify destination source = .refused message := by
  unfold Catalog.classify
  split
  · exact .inl rfl
  · split
    · exact .inr (.inl ⟨_, rfl⟩)
    · exact .inr (.inr ⟨_, rfl⟩)

theorem check_cases (c : Catalog) (source destination : Kind) (chosen : Option String) :
    c.check source destination chosen = .direct ∨ (∃ t, c.check source destination chosen = .through t) ∨
      ∃ message, c.check source destination chosen = .refused message := by
  unfold Catalog.check
  split
  · exact classify_cases c destination source
  · split
    · exact .inr (.inr ⟨_, rfl⟩)
    · split
      · exact .inr (.inl ⟨_, rfl⟩)
      · exact .inr (.inr ⟨_, rfl⟩)

theorem status_of_conversion {c : Catalog} {source destination : Kind} {chosen : Option String} {id : String}
    (h : (c.check source destination chosen).conversion = some id) :
    (c.check source destination chosen).status = .requiresConversion := by
  rcases check_cases c source destination chosen with hc | ⟨t, hc⟩ | ⟨message, hc⟩
  · rw [hc] at h
    cases h
  · rw [hc]
    rfl
  · rw [hc] at h
    cases h

/-- A conversion that fails leaves the value as it was, and is no issue. -/
theorem mapRecord_failed {fields : List DestinationField} (hd : FieldTable.ofList fields = .ok s.destinations)
    {r : MappingRule} {result : Compatibility} (ho : s.outcome r = .checked result) {id : String}
    (hc : result.conversion = some id) {value : Json} (hf : Keyed.find? r.source record = some value)
    (hn : value ≠ .null) {cache : Cache} {e : Error}
    (he : (s.catalog.tryApply cache id value (r.options.getD .empty)).1 = .error e) :
    (s.mapRecord [r] cache record).record = ⟨[(r.destination, value)], []⟩ := by
  have hvalue : sourceValue? record r.source = some value := by
    rw [sourceValue?_eq, hf]
    cases value with
    | null => exact absurd rfl hn
    | _ => rfl
  have happlied := (s.catalog.applyById_eq_tryApply cache id value (r.options.getD .empty)).1
  rw [he] at happlied
  obtain ⟨source, destination, hid, rfl, hstep⟩ := step_checked hd ho record
  rw [mapRecord_singleton, hstep, if_neg (by rw [status_of_conversion hc]; decide), hvalue]
  dsimp only
  unfold convert
  rw [hc, hid]
  dsimp only [MappingRun.store, MappingRun.start]
  rw [happlied]
  rfl

/-! ## All rules -/

theorem foldl_step_record (rules : List MappingRule) (m : MappingRun) :
    (rules.foldl (s.step record) m).record = (s.eachAlone record rules m.cache).foldl MappedRecord.merge m.record := by
  induction rules generalizing m with
  | nil => rfl
  | cons r rules ih => rw [List.foldl_cons, ih, step_eq, eachAlone, List.foldl_cons]

theorem mapRecord_record (rules : List MappingRule) (cache : Cache) : (s.mapRecord rules cache record).record =
    (s.eachAlone record rules cache).foldl MappedRecord.merge ⟨[], []⟩ :=
  foldl_step_record rules _

theorem settles_each {fields : List DestinationField} (hd : FieldTable.ofList fields = .ok s.destinations)
    (rules : List MappingRule) (cache : Cache) :
    List.Forall₂ (Settles record) (s.validate rules) (s.eachAlone record rules cache) := by
  induction rules generalizing cache with
  | nil => exact .nil
  | cons r rules ih => exact .cons (settles hd r cache) (ih _)

end Schema

section
variable {record : Keyed Json} {vs : List Validation} {alone : List MappedRecord}

theorem issues_foldl_merge (alone : List MappedRecord) (m : MappedRecord) :
    (alone.foldl MappedRecord.merge m).issues = m.issues ++ alone.flatMap (·.issues) := by
  induction alone generalizing m with
  | nil => simp
  | cons a alone ih => rw [List.foldl_cons, ih, MappedRecord.merge, List.flatMap_cons, List.append_assoc]

theorem issues_of_settles (h : List.Forall₂ (Settles record) vs alone) :
    alone.flatMap (·.issues) = vs.filterMap (·.issue? record) := by
  induction h with
  | nil => rfl
  | cons hs _ ih =>
    cases hs with
    | issue hi => rw [List.flatMap_cons, List.filterMap_cons_some hi, ih]; rfl
    | value hi x => rw [List.flatMap_cons, List.filterMap_cons_none hi, ih]; rfl

theorem sorted_foldl_merge (alone : List MappedRecord) {m : MappedRecord} (hm : Keyed.Sorted m.values) :
    Keyed.Sorted (alone.foldl MappedRecord.merge m).values := by
  induction alone generalizing m with
  | nil => exact hm
  | cons a alone ih =>
    refine ih ?_
    rw [MappedRecord.merge]
    generalize a.values = ps, m.values = values at hm
    induction ps generalizing values with
    | nil => exact hm
    | cons p ps ihp => exact ihp _ (Keyed.sorted_insert _ _ hm)

theorem Settles.find?_merge {v : Validation} {a : MappedRecord} (h : Settles record v a) (m : MappedRecord)
    (id : String) : Keyed.find? id (m.merge a).values = (Keyed.find? id a.values).or (Keyed.find? id m.values) := by
  cases h with
  | issue _ => rfl
  | value _ x =>
    rw [MappedRecord.merge, List.foldl_cons, List.foldl_nil, Keyed.find?_insert]
    by_cases hid : v.destination = id
    · simp [Keyed.find?, hid]
    · simp [Keyed.find?, hid]

theorem find?_foldl_merge (h : List.Forall₂ (Settles record) vs alone) (m : MappedRecord) (id : String) :
    Keyed.find? id (alone.foldl MappedRecord.merge m).values =
      (alone.reverse.findSome? fun a => Keyed.find? id a.values).or (Keyed.find? id m.values) := by
  induction h generalizing m with
  | nil => rfl
  | cons hs _ ih =>
    rw [List.foldl_cons, ih, hs.find?_merge, List.reverse_cons, List.findSome?_append, Option.or_assoc]
    congr 2
    simp

theorem isSome_of_settles (h : List.Forall₂ (Settles record) vs alone) (id : String) :
    (alone.reverse.findSome? fun a => Keyed.find? id a.values).isSome = true ↔
      ∃ v ∈ vs, v.issue? record = none ∧ v.destination = id := by
  rw [List.findSome?_isSome_iff]
  simp only [List.mem_reverse]
  induction h with
  | nil => simp
  | @cons v a vs alone hs _ ih =>
    have hfirst : (Keyed.find? id a.values).isSome = true ↔ v.issue? record = none ∧ v.destination = id := by
      cases hs with
      | issue hi => simp [Keyed.find?, hi]
      | value hi x =>
        by_cases hid : v.destination = id
        · simp [Keyed.find?, hi, hid]
        · simp [Keyed.find?, hi, hid]
    simp only [List.mem_cons, exists_eq_or_imp, hfirst, ih]

end

/-- What the validation of rules says about a record that they map. -/
structure Predicted (s : Schema) (rules : List MappingRule) (cache : Cache) (record : Keyed Json) : Prop where
  outcomes : List.Forall₂ (Settles record) (s.validate rules) (s.eachAlone record rules cache)
  issues : (s.mapRecord rules cache record).record.issues = (s.validate rules).filterMap (·.issue? record)
  sorted : Keyed.Sorted (s.mapRecord rules cache record).record.values
  keys : ∀ id, id ∈ (s.mapRecord rules cache record).record.values.map (·.1) ↔
    ∃ v ∈ s.validate rules, v.issue? record = none ∧ v.destination = id
  /-- the last rule that contributes to a destination gives its value -/
  kept : ∀ id, Keyed.find? id (s.mapRecord rules cache record).record.values =
    (s.eachAlone record rules cache).reverse.findSome? fun alone => Keyed.find? id alone.values
  failed : ∀ r ∈ rules, ∀ result id value e after, s.outcome r = .checked result → result.conversion = some id →
    Keyed.find? r.source record = some value → value ≠ .null →
    (s.catalog.tryApply after id value (r.options.getD .empty)).1 = .error e →
    (s.mapRecord [r] after record).record = ⟨[(r.destination, value)], []⟩

/-- **Validation predicts mapping.** -/
theorem mapRecord_predicted {fields : List DestinationField} {s : Schema}
    (hd : FieldTable.ofList fields = .ok s.destinations) (rules : List MappingRule) (cache : Cache)
    (record : Keyed Json) : Predicted s rules cache record := by
  have hall : List.Forall₂ (Settles record) (s.validate rules) (s.eachAlone record rules cache) :=
    Schema.settles_each hd rules cache
  have hkept : ∀ id, Keyed.find? id (s.mapRecord rules cache record).record.values =
      (s.eachAlone record rules cache).reverse.findSome? fun alone => Keyed.find? id alone.values := by
    intro id
    rw [Schema.mapRecord_record, find?_foldl_merge hall]
    exact Option.or_none
  refine ⟨hall, ?_, ?_, ?_, hkept, ?_⟩
  · rw [Schema.mapRecord_record, issues_foldl_merge, issues_of_settles hall]
    rfl
  · rw [Schema.mapRecord_record]
    exact sorted_foldl_merge _ .nil
  · intro id
    rw [← Keyed.find?_isSome, hkept, isSome_of_settles hall]
  · intro r _ result id value e after ho hc hf hn he
    exact Schema.mapRecord_failed hd ho hc hf hn he

/-- A value that fits, and a field that no one knows. -/
theorem mapRecord_predicted_page :
    let name : SourceField := { id := "name", name := "Name", kind := .title }
    let heading : DestinationField := { id := "heading", name := "Heading", kind := .text }
    let s : Schema := ⟨.empty, ⟨[name], [("name", 0)]⟩, ⟨[heading], [("heading", 0)]⟩⟩
    let rules : List MappingRule :=
      [{ destination := "heading", source := "name" }, { destination := "heading", source := "summary" }]
    FieldTable.ofList [heading] = .ok s.destinations ∧
      Predicted s rules (.empty {}) [("name", .string "A page")] := by
  intro name heading s rules
  exact ⟨rfl, mapRecord_predicted (show FieldTable.ofList [heading] = .ok s.destinations from rfl) _ _ _⟩

end FieldBridge
