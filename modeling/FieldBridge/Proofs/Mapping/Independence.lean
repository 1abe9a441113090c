import FieldBridge.Proofs.Cache.Queue
import FieldBridge.Proofs.Conversion.Registration
import FieldBridge.Proofs.Mapping.Run
import FieldBridge.Proofs.Mapping.Transparency

/-!
# Rules do not see each other

The cache goes from rule to rule, so that each rule meets what all those before it left. What
it comes to is the same with any cache that was filled by running conversions, and rules with
destinations of their own can be run in any order.
-/

namespace FieldBridge

/-- Requests that put nothing into a cache but what a conversion of the catalog gives. -/
def Request.RunsOnly (c : Catalog) : Request Failure → Prop
  | .set k result _ => k.value.IsNormal ∧ k.options.IsNormal ∧
      ∃ t, c.get? k.id = some t ∧ t.run k.value k.options = .ok result
  | .getOrCompute k computed => k.value.IsNormal ∧ k.options.IsNormal ∧
      ∃ t, c.get? k.id = some t ∧ t.run k.value k.options = computed
  | .get k => k.value.IsNormal ∧ k.options.IsNormal
  | _ => True

/-- Caches that hold only what running the conversions of a catalog gave, with any settings, by any
clock and after any requests. -/
def Cache.FilledBy (cache : Cache) (c : Catalog) : Prop :=
  ∃ (settings : CacheSettings) (clock : Clock) (requests : List (Request Failure)),
    (∀ r ∈ requests, r.RunsOnly c) ∧ cache = (answers Cache.answer (.empty settings clock) requests).2

/-! ## Caches that were filled are honest -/

namespace Honest
variable {c : Catalog} {cache : Cache}

theorem getOrCompute (hc : c.Indexed) (h : Honest c cache) {t : Conversion} {id : String} (ht : c.get? id = some t)
    (v : Value) (o : Bag) : Honest c (cache.getOrCompute id v o fun _ => t.run v o).2 := by
  obtain ⟨hmem, rfl⟩ := hc.get?_iff.mp ht
  exact (h.runCached ht v o).2

theorem answer (hc : c.Indexed) (h : Honest c cache) {r : Request Failure} (hr : r.RunsOnly c) :
    Honest c (cache.answer r).2 := by
  cases r with
  | get k => exact (h.get k.id ⟨k.value, hr.1⟩ ⟨k.options, hr.2⟩).1
  | set k result ttl =>
    obtain ⟨hv, ho, t, ht, hrun⟩ := hr
    obtain ⟨id, v, o⟩ := k
    obtain ⟨-, rfl⟩ := hc.get?_iff.mp ht
    exact h.set ht ⟨v, hv⟩ ⟨o, ho⟩ hrun ttl
  | getOrCompute k computed =>
    obtain ⟨hv, ho, t, ht, rfl⟩ := hr
    exact h.getOrCompute hc ht ⟨k.value, hv⟩ ⟨k.options, ho⟩
  | invalidate k => exact h.subset (Cache.entries_remove _ _)
  | invalidateAll id => exact h.subset (Cache.entries_removeAll _ _)
  | purgeExpired => exact h.subset (Cache.entries_removeAll _ _)
  | clear => exact h.subset (List.nil_subset _)
  | clearEntries => exact h.subset (List.nil_subset _)
  | resetStats => exact h
  | updateSettings u => exact h.updateSettings u
  | look => exact h
  | wait nanoseconds => exact h

theorem answers (hc : c.Indexed) (h : Honest c cache) {requests : List (Request Failure)}
    (hr : ∀ r ∈ requests, r.RunsOnly c) : Honest c (answers Cache.answer cache requests).2 := by
  induction requests generalizing cache with
  | nil => exact h
  | cons r requests ih =>
    apply ih
    · exact h.answer hc (hr r List.mem_cons_self)
    · intro r' hr'
      exact hr r' (List.mem_cons_of_mem _ hr')

theorem ofFilledBy (hc : c.Indexed) (h : cache.FilledBy c) : Honest c cache := by
  obtain ⟨settings, clock, requests, hr, rfl⟩ := h
  exact (Honest.empty c settings clock).answers hc hr

end Honest

/-! ## What each rule comes to -/

namespace Schema
variable {s : Schema} {record : Row} {cache : Cache}

/-- What a rule comes to where there is no cache. -/
def alone (s : Schema) (record : Keyed Json) (r : MappingRule) : MappedRecord :=
  (s.mapRecord [r] .absent record).record

theorem eachAlone_eq (hc : s.catalog.Indexed) (hh : Honest s.catalog cache) (rules : List Rule) :
    s.eachAlone record (rules.map (·.1)) cache = rules.map fun r => s.alone record r.1 := by
  induction rules generalizing cache with
  | nil => rfl
  | cons r rules ih =>
    have hr := mapRecord_alike hc hh (Honest.empty s.catalog { enabled := false } {}) [r] record
    have hrecord : (s.mapRecord [r.1] cache record).record = s.alone record r.1 :=
      congrArg Prod.fst hr.result
    have hleft : Honest s.catalog (s.mapRecord [r.1] cache record).cache := hr.left
    rw [List.map_cons, eachAlone, hrecord, ih hleft, List.map_cons]

theorem mapRecord_eq (hc : s.catalog.Indexed) (hh : Honest s.catalog cache) (rules : List Rule) :
    (s.mapRecord (rules.map (·.1)) cache record).record =
      (rules.map fun r => s.alone record r.1).foldl MappedRecord.merge ⟨[], []⟩ := by
  rw [mapRecord_record, eachAlone_eq hc hh]

variable {fields : List DestinationField}

theorem destination_of_alone (hd : FieldTable.ofList fields = .ok s.destinations) {r : MappingRule} {id : String}
    {x : Json} (hx : Keyed.find? id (s.alone record r).values = some x) : r.destination = id := by
  have hs : Settles record (s.validation r) (s.alone record r) := settles hd r .absent
  generalize s.alone record r = a at hs hx
  cases hs with
  | issue _ => simp [Keyed.find?] at hx
  | value _ y =>
    by_cases hid : r.destination = id
    · exact hid
    · simp [Keyed.find?, validation, hid] at hx

/-- Where only one element gives anything, it does not matter in which order they are tried. -/
theorem findSome?_eq_some_iff_of_unique {α β : Type} {f : α → Option β} {l : List α}
    (hu : ∀ a ∈ l, ∀ b ∈ l, (f a).isSome → (f b).isSome → a = b) (x : β) :
    l.findSome? f = some x ↔ ∃ a ∈ l, f a = some x := by
  constructor
  · intro h
    exact List.exists_of_findSome?_eq_some h
  · intro ⟨a, ha, hx⟩
    cases hf : l.findSome? f with
    | none =>
      have hnone := List.findSome?_eq_none_iff.mp hf a ha
      rw [hx] at hnone
      cases hnone
    | some y =>
      obtain ⟨b, hb, hy⟩ := List.exists_of_findSome?_eq_some hf
      have hab := hu a ha b hb (by simp [hx]) (by simp [hy])
      rw [← hy, ← hab, hx]

/-- A value comes from the one rule with its destination. -/
theorem find?_values_iff (hd : FieldTable.ofList fields = .ok s.destinations) (hc : s.catalog.Indexed)
    (hh : Honest s.catalog cache) {rules : List Rule} (hn : (rules.map (·.1.destination)).Nodup) (id : String)
    (x : Json) : Keyed.find? id (s.mapRecord (rules.map (·.1)) cache record).record.values = some x ↔
      ∃ r ∈ rules, Keyed.find? id (s.alone record r.1).values = some x := by
  have hall : List.Forall₂ (Settles record) (s.validate (rules.map (·.1)))
      (s.eachAlone record (rules.map (·.1)) cache) := settles_each hd _ _
  rw [mapRecord_record, find?_foldl_merge hall, eachAlone_eq hc hh, ← List.map_reverse, List.findSome?_map]
  simp only [Keyed.find?, Option.or_none]
  rw [findSome?_eq_some_iff_of_unique]
  · simp
  · intro r hr r' hr' hx hy
    obtain ⟨x, hx⟩ := Option.isSome_iff_exists.mp hx
    obtain ⟨y, hy⟩ := Option.isSome_iff_exists.mp hy
    have hdest := (destination_of_alone hd hx).trans (destination_of_alone hd hy).symm
    exact List.inj_on_of_nodup_map hn (List.mem_reverse.mp hr) (List.mem_reverse.mp hr') hdest

theorem sorted_values (rules : List MappingRule) (record : Keyed Json) :
    Keyed.Sorted (s.mapRecord rules cache record).record.values := by
  rw [mapRecord_record]
  exact sorted_foldl_merge _ .nil

end Schema

/-- **Rules do not see each other.** Rules with destinations of their own make the same values of a
record in any order and with any caches that the catalog's own conversions filled, and report the
same issues but for their order. -/
theorem mapRecord_independent (ts : List Conversion) (sources : FieldTable SourceField)
    {fields : List DestinationField} {destinations : FieldTable DestinationField}
    (hd : FieldTable.ofList fields = .ok destinations) {a b : Cache}
    (ha : a.FilledBy (Catalog.empty.offerAll ts)) (hb : b.FilledBy (Catalog.empty.offerAll ts))
    {rules rules' : List Rule} (hp : rules.Perm rules') (hn : (rules.map (·.1.destination)).Nodup) (record : Row) :
    let s : Schema := ⟨Catalog.empty.offerAll ts, sources, destinations⟩
    (s.mapRecord (rules.map (·.1)) a record).record.values =
        (s.mapRecord (rules'.map (·.1)) b record).record.values ∧
      (s.mapRecord (rules.map (·.1)) a record).record.issues.Perm
        (s.mapRecord (rules'.map (·.1)) b record).record.issues := by
  intro s
  have hc : s.catalog.Indexed := (Catalog.orderly_empty.offerAll ts).toIndexed
  have hha : Honest s.catalog a := .ofFilledBy hc ha
  have hhb : Honest s.catalog b := .ofFilledBy hc hb
  constructor
  · apply Keyed.ext (Schema.sorted_values _ _) (Schema.sorted_values _ _)
    intro id
    have hn' : (rules'.map (·.1.destination)).Nodup := (hp.map _).nodup_iff.mp hn
    ext x
    rw [Schema.find?_values_iff hd hc hha hn, Schema.find?_values_iff hd hc hhb hn']
    simp only [hp.mem_iff]
  · rw [Schema.mapRecord_eq hc hha, Schema.mapRecord_eq hc hhb, issues_foldl_merge, issues_foldl_merge]
    exact (hp.map _).flatMap_right _

/-- Two rules for one source field, in both orders, through a cache in which the result has expired
when it is looked up again, and through one that is turned off. -/
theorem mapRecord_independent_swapped :
    let shout : Conversion :=
      { id := "shout", source := .text, target := .number, name := "Shout", description := "", impact := .low
        complexity := .low, benchmarkable := true, sample := ⟨.string "a", .string "a!"⟩
        run := fun v _ =>
          match v with
          | .string s => .ok (.string (s ++ "!"))
          | _ => .error (.rejected "not a text") }
    let name : SourceField := { id := "name", name := "Name", kind := .text }
    let loud : DestinationField := { id := "loud", name := "Loud", kind := .number }
    let plain : DestinationField := { id := "plain", name := "Plain", kind := .text }
    let destinations : FieldTable DestinationField := ⟨[loud, plain], [("plain", 1), ("loud", 0)]⟩
    let s : Schema := ⟨Catalog.empty.offerAll [shout], ⟨[name], [("name", 0)]⟩, destinations⟩
    let shouting : Request Failure := .getOrCompute ⟨"shout", .string "a", .empty⟩ (.ok (.string "a!"))
    let clock : Clock := { pace := fun _ => 20 }
    let a : Cache := (answers Cache.answer (.empty { capacity := 1, ttl := 10 } clock) [shouting]).2
    let b : Cache := (answers Cache.answer (.empty { enabled := false }) ([] : List (Request Failure))).2
    let first : Rule := ⟨{ destination := "loud", source := "name" }, fun _ h => nomatch h⟩
    let second : Rule := ⟨{ destination := "plain", source := "name" }, fun _ h => nomatch h⟩
    let record : Row := ⟨[("name", .string "a")], rfl⟩
    FieldTable.ofList [loud, plain] = .ok destinations ∧ a.FilledBy s.catalog ∧ b.FilledBy s.catalog ∧
      [first, second].Perm [second, first] ∧ ([first, second].map (·.1.destination)).Nodup ∧
      (s.mapRecord ([first, second].map (·.1)) a record).record.values =
        (s.mapRecord ([second, first].map (·.1)) b record).record.values ∧
      (s.mapRecord ([first, second].map (·.1)) a record).record.issues.Perm
        (s.mapRecord ([second, first].map (·.1)) b record).record.issues := by
  intro shout name loud plain destinations s shouting clock a b first second record
  have hd : FieldTable.ofList [loud, plain] = .ok destinations := rfl
  have hshouting : shouting.RunsOnly s.catalog := ⟨rfl, rfl, shout, rfl, rfl⟩
  have ha : a.FilledBy s.catalog := by
    refine ⟨_, clock, [shouting], ?_, rfl⟩
    intro r hr
    rw [List.mem_singleton.mp hr]
    exact hshouting
  have hb : b.FilledBy s.catalog := by
    refine ⟨_, {}, [], ?_, rfl⟩
    intro r hr
    cases hr
  have hp : [first, second].Perm [second, first] := .swap _ _ _
  have hn : ([first, second].map (·.1.destination)).Nodup := by decide
  exact ⟨hd, ha, hb, hp, hn, mapRecord_independent [shout] _ hd ha hb hp hn record⟩

end FieldBridge
