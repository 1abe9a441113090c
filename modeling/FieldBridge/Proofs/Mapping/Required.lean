import FieldBridge.Proofs.Mapping.Run

/-!
# Required fields are covered

Which rules contribute to a record is told by their validation and by what the record has
under their sources. So rules that feed every required field, all of them valid, make a
value for each of these fields of any record that has their sources, even where a
conversion fails; a required field that no rule feeds never gets one.
-/

namespace FieldBridge

/-- A record has a value under a source id; `null` is none. -/
def HasValue (record : Keyed Json) (source : String) : Prop :=
  ∃ value, Keyed.find? source record = some value ∧ value ≠ .null

theorem Validation.issue?_eq_none_iff {v : Validation} {record : Keyed Json} :
    v.issue? record = none ↔ v.isValid = true ∧ HasValue record v.source := by
  unfold issue?
  split
  case h_1 ho => simp [isValid, ho]
  case h_2 ho => simp [isValid, ho]
  case h_3 result ho =>
    cases hv : v.isValid with
    | false => simp
    | true =>
      cases hf : Keyed.find? v.source record with
      | none => simp [HasValue, hf]
      | some value => cases value <;> simp [HasValue, hf]

theorem mem_missingRequired {destinations : FieldTable DestinationField} {rules : List MappingRule}
    {d : DestinationField} : d ∈ missingRequired destinations rules ↔
      d ∈ destinations.fields ∧ d.required = true ∧ ∀ r ∈ rules, r.destination ≠ d.id := by
  simp [missingRequired]

theorem missingRequired_eq_nil_iff {destinations : FieldTable DestinationField} {rules : List MappingRule} :
    missingRequired destinations rules = [] ↔
      ∀ d ∈ destinations.fields, d.required = true → ∃ r ∈ rules, r.destination = d.id := by
  simp [missingRequired, List.filter_eq_nil_iff]

section
variable {fields : List DestinationField} {s : Schema} (hd : FieldTable.ofList fields = .ok s.destinations)
  (rules : List MappingRule) (cache : Cache) (record : Keyed Json)
include hd

/-- Nothing is reported exactly when every rule is valid and has its source. -/
theorem issues_eq_nil_iff : (s.mapRecord rules cache record).record.issues = [] ↔
    ∀ r ∈ rules, (s.validation r).isValid = true ∧ HasValue record r.source := by
  rw [Schema.mapRecord_record, issues_foldl_merge, issues_of_settles (s.settles_each hd rules cache), List.nil_append,
    List.filterMap_eq_nil_iff]
  simp only [Validation.issue?_eq_none_iff]
  exact List.forall_mem_map

/-- A destination gets a value exactly when a valid rule that has its source feeds it. -/
theorem isSome_find?_values_iff (id : String) :
    (Keyed.find? id (s.mapRecord rules cache record).record.values).isSome = true ↔
      ∃ r ∈ rules, r.destination = id ∧ (s.validation r).isValid = true ∧ HasValue record r.source := by
  have hall : List.Forall₂ (Settles record) (s.validate rules) (s.eachAlone record rules cache) :=
    Schema.settles_each hd rules cache
  have hvalidate : s.validate rules = rules.map s.validation := rfl
  rw [Schema.mapRecord_record, find?_foldl_merge hall]
  simp only [Keyed.find?, Option.or_none]
  rw [isSome_of_settles hall, hvalidate]
  simp only [List.mem_map, exists_exists_and_eq_and, Validation.issue?_eq_none_iff]
  exact exists_congr fun r => and_congr_right fun _ => and_comm

end

/-- **Required fields are covered.** Where no required field lacks a rule and all rules are valid, a
record with a value for each of their sources is mapped without an issue, to a value for every
required field. A required field that lacks a rule gets no value of any record. -/
theorem mapRecord_covers {fields : List DestinationField} {s : Schema}
    (hd : FieldTable.ofList fields = .ok s.destinations) (rules : List MappingRule) (cache : Cache)
    (record : Keyed Json) :
    (missingRequired s.destinations rules = [] → (∀ v ∈ s.validate rules, v.isValid = true) →
      (∀ r ∈ rules, HasValue record r.source) →
        (s.mapRecord rules cache record).record.issues = [] ∧
          ∀ d ∈ s.destinations.fields, d.required = true →
            ∃ value, Keyed.find? d.id (s.mapRecord rules cache record).record.values = some value) ∧
      ∀ d ∈ missingRequired s.destinations rules,
        Keyed.find? d.id (s.mapRecord rules cache record).record.values = none := by
  constructor
  · intro hmissing hvalid hvalues
    have hrule : ∀ r ∈ rules, (s.validation r).isValid = true ∧ HasValue record r.source := fun r hr =>
      ⟨hvalid _ (List.mem_map_of_mem hr), hvalues r hr⟩
    refine ⟨(issues_eq_nil_iff hd rules cache record).mpr hrule, fun d hmem hrequired => ?_⟩
    obtain ⟨r, hr, hfeeds⟩ := missingRequired_eq_nil_iff.mp hmissing d hmem hrequired
    rw [← Option.isSome_iff_exists, isSome_find?_values_iff hd]
    exact ⟨r, hr, hfeeds, hrule r hr⟩
  · intro d hmem
    obtain ⟨-, -, hfree⟩ := mem_missingRequired.mp hmem
    rw [← Option.not_isSome_iff_eq_none, isSome_find?_values_iff hd]
    rintro ⟨r, hr, hfeeds, -⟩
    exact hfree r hr hfeeds

/-- Two rules for one required field, the later one through a conversion that fails; and a rule
taken away. -/
theorem mapRecord_covers_failing :
    let count : Conversion :=
      { id := "count", source := .text, target := .number, name := "Count", description := "", impact := .low
        complexity := .low, benchmarkable := true, sample := ⟨.string "a", .int 1⟩
        run := fun _ _ => .error (.rejected "cannot count") }
    let name : SourceField := { id := "name", name := "Name", kind := .text }
    let size : SourceField := { id := "size", name := "Size", kind := .number }
    let total : DestinationField := { id := "total", name := "Total", kind := .number, required := true }
    let heading : DestinationField := { id := "heading", name := "Heading", kind := .title, required := true }
    let destinations : FieldTable DestinationField := ⟨[total, heading], [("heading", 1), ("total", 0)]⟩
    let s : Schema := ⟨Catalog.empty.append count, ⟨[name, size], [("size", 1), ("name", 0)]⟩, destinations⟩
    let rules : List MappingRule :=
      [{ destination := "total", source := "size" }, { destination := "heading", source := "name" },
        { destination := "total", source := "name", conversion := some "count" }]
    let record : Keyed Json := [("name", .string "A page"), ("size", .int 3)]
    FieldTable.ofList [total, heading] = .ok destinations ∧
      (missingRequired destinations rules = [] ∧ (∀ v ∈ s.validate rules, v.isValid = true) ∧
        (∀ r ∈ rules, HasValue record r.source) ∧ (s.mapRecord rules (.empty {}) record).record.issues = [] ∧
          ∀ d ∈ destinations.fields, d.required = true →
            ∃ value, Keyed.find? d.id (s.mapRecord rules (.empty {}) record).record.values = some value) ∧
      heading ∈ missingRequired destinations (rules.take 1) ∧
        Keyed.find? heading.id (s.mapRecord (rules.take 1) (.empty {}) record).record.values = none := by
  intro count name size total heading destinations s rules record
  have hd : FieldTable.ofList [total, heading] = .ok s.destinations := rfl
  have hmissing : missingRequired s.destinations rules = [] := by decide
  have hvalid : ∀ v ∈ s.validate rules, v.isValid = true := by decide
  have hvalues : ∀ r ∈ rules, HasValue record r.source := by
    simp only [rules, List.forall_mem_cons, List.not_mem_nil, false_imp_iff, implies_true, and_true]
    exact ⟨⟨_, rfl, nofun⟩, ⟨_, rfl, nofun⟩, ⟨_, rfl, nofun⟩⟩
  have hheading : heading ∈ missingRequired s.destinations (rules.take 1) := by decide
  exact ⟨hd, ⟨hmissing, hvalid, hvalues, (mapRecord_covers hd rules _ record).1 hmissing hvalid hvalues⟩, hheading,
    (mapRecord_covers hd (rules.take 1) _ record).2 heading hheading⟩

end FieldBridge
