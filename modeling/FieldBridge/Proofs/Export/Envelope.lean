import FieldBridge.Export.Basic
import FieldBridge.Proofs.Document.Record

/-!
# Exports are read back

The text of an envelope tells the envelope but for the part of a millisecond of its
time stamp. The members are written sorted, whatever the order of the fields, so
each record is shown to be restored from its form, its counts having 64 bits and its
floats being legible, and the envelope from a form that holds any text of the time
stamp.
-/

namespace FieldBridge

open Record Document

namespace Json

/-- Putting a member into a normal form replaces what the object holds under its key. -/
theorem same_insert {ms ns : List (String × Json)} {key : String} {w : Json}
    (h : ∀ k, last? k ns = if key = k then some w else last? k ms) :
    Same (object (Keyed.insert key w (normalizeMembers ms))) (object ns) := by
  have hfind : ∀ k, last? k (Keyed.insert key w (normalizeMembers ms)) =
      if key = k then some w else (last? k ms).map normalize := by
    intro k
    rw [last?_of_sorted (Keyed.sorted_insert _ _ (sorted_normalizeMembers ms)), Keyed.find?_insert,
      find?_normalizeMembers]
  refine .object (fun k => ?_) fun k v u hv hu => ?_
  · rw [hfind, h]
    split
    · rfl
    · rw [Option.isSome_map]
  · rw [hfind] at hv
    rw [h] at hu
    split at hv
    · rw [if_pos ‹_›] at hu
      rw [← Option.some.inj hv, ← Option.some.inj hu]
      exact same_iff_normalize_eq.mpr rfl
    · rw [if_neg ‹_›] at hu
      rw [hu, Option.map_some] at hv
      rw [← Option.some.inj hv]
      exact same_normalize u

theorem mem_insert_normalizeMembers {ms : List (String × Json)} {key : String} {w : Json} {p : String × Json}
    (hp : p ∈ Keyed.insert key w (normalizeMembers ms)) : p.2 = w ∨ p ∈ normalizeMembers ms := by
  have hsorted := sorted_normalizeMembers ms
  have hfind := Keyed.find?_of_mem (Keyed.sorted_insert key w hsorted).nodup hp
  rw [Keyed.find?_insert] at hfind
  split at hfind
  · exact .inl (Option.some.inj hfind).symm
  · exact .inr (Keyed.mem_of_find? hfind)

end Json

/-! ## Records of a benchmark and of advice -/

theorem restored_kind (k : Kind) : Restored k := restored_ofNames (by cases k <;> rfl)

theorem restored_level (l : Level) : Restored l := restored_ofNames (by cases l <;> rfl)

theorem restored_adviceKind (k : AdviceKind) : Restored k := restored_ofNames (by cases k <;> rfl)

namespace BenchmarkResult

def counts (r : BenchmarkResult) : List ℕ := [r.iterations, r.samples, r.failures]

def floats (r : BenchmarkResult) : List Float := [r.totalTime, r.averageTime]

theorem restored {r : BenchmarkResult} (hc : ∀ n ∈ r.counts, n < 0x10000000000000000)
    (hf : ∀ x ∈ r.floats, x.isFinite = true) : Restored r := by
  intro v hv hs
  have h : Form v _ := ⟨hv, hs⟩
  simp only [counts, floats, List.forall_mem_cons, List.not_mem_nil, false_imp_iff, implies_true, and_true] at hc hf
  show (Document.slots? _ _ >>= _) = _
  rw [h.slots? (by simp [slot, lastSlot])]
  simp only [List.map_cons, List.map_nil, Option.bind_eq_bind, Option.bind_some,
    h.needed (s := slot "transformationId") (by simp [-Option.or_some]) (restored_string r.conversion),
    h.needed (s := slot "transformationName") (by simp [-Option.or_some]) (restored_string r.name),
    h.needed (s := slot "sourceKind") (by simp [-Option.or_some]) (restored_kind r.source),
    h.needed (s := slot "targetKind") (by simp [-Option.or_some]) (restored_kind r.target),
    h.needed (s := slot "iterations") (by simp [-Option.or_some]) (restored_nat hc.1),
    h.needed (s := slot "totalTimeMs") (by simp [-Option.or_some]) (restored_float hf.1),
    h.needed (s := slot "averageTimeMs") (by simp [-Option.or_some]) (restored_float hf.2),
    h.needed (s := slot "withCache") (by simp [-Option.or_some]) (restored_bool r.cached),
    h.needed (s := slot "sampleCount") (by simp [-Option.or_some]) (restored_nat hc.2.1),
    h.orElse (s := lastSlot "failureCount") (by simp [-Option.or_some]) (restored_nat hc.2.2)]

theorem readable {r : BenchmarkResult} (hf : ∀ x ∈ r.floats, Number.Legible x) (d : ℕ) :
    Json.Readable (d + 1) (encode r) := by
  simp only [floats, List.forall_mem_cons, List.not_mem_nil, false_imp_iff, implies_true, and_true] at hf
  refine Json.readable_object.mpr ?_
  simp only [List.forall_mem_append, forall_mem_member, readable_text, readable_flag, readable_nat, readable_ofNames,
    readable_float hf.1, readable_float hf.2, and_self]

end BenchmarkResult

namespace Advice

def counts (a : Advice) : List ℕ := a.current.toList ++ a.suggested.toList

theorem restored {a : Advice} (hc : ∀ n ∈ a.counts, n < 0x10000000000000000) : Restored a := by
  intro v hv hs
  have h : Form v _ := ⟨hv, hs⟩
  simp only [counts, List.forall_mem_append, Option.mem_toList] at hc
  show (Document.slots? _ _ >>= _) = _
  rw [h.slots? (by simp [slot])]
  simp only [List.map_cons, List.map_nil, Option.bind_eq_bind, Option.bind_some,
    h.needed (s := slot "type") (by simp [-Option.or_some]) (restored_adviceKind a.kind),
    h.needed (s := slot "impact") (by simp [-Option.or_some]) (restored_level a.impact),
    h.ifAny (s := slot "transformationId") (by simp [-Option.or_some]) fun s (_ : s ∈ a.conversion) => present_string s,
    h.ifAny (s := slot "transformationName") (by simp [-Option.or_some]) fun s (_ : s ∈ a.conversionName) =>
      present_string s,
    h.needed (s := slot "description") (by simp [-Option.or_some]) (restored_string a.description),
    h.ifAny (s := slot "currentValue") (by simp [-Option.or_some]) fun n (hn : n ∈ a.current) =>
      present_nat (hc.1 n hn),
    h.ifAny (s := slot "suggestedValue") (by simp [-Option.or_some]) fun n (hn : n ∈ a.suggested) =>
      present_nat (hc.2 n hn)]

theorem readable (a : Advice) (d : ℕ) : Json.Readable (d + 1) (encode a) := by
  refine Json.readable_object.mpr ?_
  simp only [List.forall_mem_append, forall_mem_member, forall_mem_memberIf, readable_text, readable_nat,
    readable_ofNames, implies_true, and_self]

end Advice

namespace Improvement

theorem restored {i : Improvement} (hf : i.percent.isFinite = true) : Restored i := by
  intro v hv hs
  have h : Form v _ := ⟨hv, hs⟩
  show (Document.slots? _ _ >>= _) = _
  rw [h.slots? (by simp [slot])]
  simp only [List.map_cons, List.map_nil, Option.bind_eq_bind, Option.bind_some,
    h.needed (s := slot "transformationId") (by simp [-Option.or_some]) (restored_string i.conversion),
    h.needed (s := slot "transformationName") (by simp [-Option.or_some]) (restored_string i.name),
    h.needed (s := slot "improvement") (by simp [-Option.or_some]) (restored_float hf)]

theorem readable {i : Improvement} (hf : Number.Legible i.percent) (d : ℕ) : Json.Readable (d + 1) (encode i) := by
  refine Json.readable_object.mpr ?_
  simp only [List.forall_mem_append, forall_mem_member, readable_text, readable_float hf, and_self]

end Improvement

namespace Performance

def floats (p : Performance) : List Float := [p.average, p.best]

theorem restored {p : Performance} (hc : p.analyzed < 0x10000000000000000) (hf : ∀ x ∈ p.floats, x.isFinite = true) :
    Restored p := by
  intro v hv hs
  have h : Form v _ := ⟨hv, hs⟩
  simp only [floats, List.forall_mem_cons, List.not_mem_nil, false_imp_iff, implies_true, and_true] at hf
  show (Document.slots? _ _ >>= _) = _
  rw [h.slots? (by simp [slot])]
  simp only [List.map_cons, List.map_nil, Option.bind_eq_bind, Option.bind_some,
    h.needed (s := slot "averageImprovement") (by simp [-Option.or_some]) (restored_float hf.1),
    h.needed (s := slot "bestImprovement") (by simp [-Option.or_some]) (restored_float hf.2),
    h.ifAny (s := slot "bestTransformationName") (by simp [-Option.or_some]) fun s (_ : s ∈ p.bestName) =>
      present_string s,
    h.ifAny (s := slot "worstTransformationName") (by simp [-Option.or_some]) fun s (_ : s ∈ p.worstName) =>
      present_string s,
    h.needed (s := slot "transformationsAnalyzed") (by simp [-Option.or_some]) (restored_nat hc)]

theorem readable {p : Performance} (hf : ∀ x ∈ p.floats, Number.Legible x) (d : ℕ) :
    Json.Readable (d + 1) (encode p) := by
  simp only [floats, List.forall_mem_cons, List.not_mem_nil, false_imp_iff, implies_true, and_true] at hf
  refine Json.readable_object.mpr ?_
  simp only [List.forall_mem_append, forall_mem_member, forall_mem_memberOrNull, readable_text, readable_nat,
    readable_orNull, readable_float hf.1, readable_float hf.2, implies_true, and_self]

end Performance

namespace CacheSnapshot

def counts (c : CacheSnapshot) : List ℕ := [c.size, c.capacity, c.hits, c.misses]

theorem restored {c : CacheSnapshot} (hc : ∀ n ∈ c.counts, n < 0x10000000000000000)
    (hf : c.hitRate.isFinite = true) : Restored c := by
  intro v hv hs
  have h : Form v _ := ⟨hv, hs⟩
  simp only [counts, List.forall_mem_cons, List.not_mem_nil, false_imp_iff, implies_true, and_true] at hc
  show (Document.slots? _ _ >>= _) = _
  rw [h.slots? (by simp [slot])]
  simp only [List.map_cons, List.map_nil, Option.bind_eq_bind, Option.bind_some,
    h.needed (s := slot "size") (by simp [-Option.or_some]) (restored_nat hc.1),
    h.needed (s := slot "capacity") (by simp [-Option.or_some]) (restored_nat hc.2.1),
    h.needed (s := slot "hits") (by simp [-Option.or_some]) (restored_nat hc.2.2.1),
    h.needed (s := slot "misses") (by simp [-Option.or_some]) (restored_nat hc.2.2.2),
    h.needed (s := slot "hitRate") (by simp [-Option.or_some]) (restored_float hf)]

theorem readable {c : CacheSnapshot} (hf : Number.Legible c.hitRate) (d : ℕ) : Json.Readable (d + 1) (encode c) := by
  refine Json.readable_object.mpr ?_
  simp only [List.forall_mem_append, forall_mem_member, readable_nat, readable_float hf, and_self]

end CacheSnapshot

namespace Summary

def counts (s : Summary) : List ℕ := s.performance.analyzed :: s.cache.counts ++ s.advice.flatMap Advice.counts

def floats (s : Summary) : List Float :=
  s.performance.floats ++ s.cache.hitRate :: s.improvements.map (·.percent)

theorem restored {s : Summary} (hc : ∀ n ∈ s.counts, n < 0x10000000000000000)
    (hf : ∀ x ∈ s.floats, x.isFinite = true) : Restored s := by
  intro v hv hs
  have h : Form v _ := ⟨hv, hs⟩
  simp only [counts, floats, List.cons_append, List.forall_mem_cons, List.forall_mem_append,
    List.forall_mem_map] at hc hf
  obtain ⟨hanalyzed, hcache, hadvice⟩ := hc
  obtain ⟨hperformance, hrate, hpercent⟩ := hf
  show (Document.slots? _ _ >>= _) = _
  rw [h.slots? (by simp [slot])]
  simp only [List.map_cons, List.map_nil, Option.bind_eq_bind, Option.bind_some,
    h.needed (s := slot "overallPerformance") (by simp [-Option.or_some]) (Performance.restored hanalyzed hperformance),
    h.needed (s := slot "improvements") (by simp [-Option.or_some])
      (restored_list fun i hi => Improvement.restored (hpercent i hi)),
    h.needed (s := slot "cacheStats") (by simp [-Option.or_some]) (CacheSnapshot.restored hcache hrate),
    h.needed (s := slot "recommendations") (by simp [-Option.or_some])
      (restored_list fun a ha => Advice.restored fun n hn => hadvice n (List.mem_flatMap.mpr ⟨a, ha, hn⟩))]

theorem readable {s : Summary} (hf : ∀ x ∈ s.floats, Number.Legible x) (d : ℕ) :
    Json.Readable (d + 3) (encode s) := by
  simp only [floats, List.forall_mem_cons, List.forall_mem_append, List.forall_mem_map] at hf
  obtain ⟨hperformance, hrate, hpercent⟩ := hf
  refine Json.readable_object.mpr ?_
  simp only [List.forall_mem_append, forall_mem_member]
  exact ⟨⟨⟨Performance.readable hperformance _, readable_list fun i hi => Improvement.readable (hpercent i hi) d⟩,
    CacheSnapshot.readable hrate _⟩, readable_list fun a _ => a.readable d⟩

end Summary

/-! ## Envelopes -/

namespace Envelope

def counts (e : Envelope) : List ℕ :=
  e.results.flatMap BenchmarkResult.counts ++ e.summary.toList.flatMap Summary.counts

def floats (e : Envelope) : List Float :=
  e.results.flatMap BenchmarkResult.floats ++ e.summary.toList.flatMap Summary.floats

/-- Counts of 64 bits, finite floats that are read back from their texts, and a time stamp in the
years 0 to 9999. -/
structure Exportable (e : Envelope) : Prop where
  counts : ∀ n ∈ e.counts, n < 0x10000000000000000
  floats : ∀ x ∈ e.floats, Number.Legible x
  timestamp : ∀ t ∈ e.timestamp, t.Dated

/-- With its time stamp cut down to whole milliseconds. -/
def cut (e : Envelope) : Envelope := { e with timestamp := e.timestamp.map Instant.cut }

/-- The time stamp is a whole number of milliseconds. -/
def IsWhole (e : Envelope) : Prop := ∀ t ∈ e.timestamp, t.time.nano % 1000000 = 0

/-- The members of an envelope with some text for its time stamp. -/
def members (e : Envelope) (stamp : Option String) : List (String × Json) :=
  memberIf "timestamp" stamp ++ member "benchmarkResults" e.results ++ memberIf "optimizationSummary" e.summary

theorem encode_eq (e : Envelope) : encode e = .object (e.members (e.timestamp.map Instant.text)) := by
  have hstamp : memberIf "timestamp" e.timestamp = memberIf "timestamp" (e.timestamp.map Instant.text) := by
    cases e.timestamp <;> rfl
  show Json.object (memberIf "timestamp" e.timestamp ++ _ ++ _) = _
  rw [hstamp]
  rfl

section
variable {e : Envelope} (he : e.Exportable)
include he

theorem Exportable.result {r : BenchmarkResult} (hr : r ∈ e.results) :
    (∀ n ∈ r.counts, n < 0x10000000000000000) ∧ ∀ x ∈ r.floats, Number.Legible x :=
  ⟨fun n hn => he.counts n (List.mem_append_left _ (List.mem_flatMap.mpr ⟨r, hr, hn⟩)),
    fun x hx => he.floats x (List.mem_append_left _ (List.mem_flatMap.mpr ⟨r, hr, hx⟩))⟩

theorem Exportable.summary {s : Summary} (hs : s ∈ e.summary) :
    (∀ n ∈ s.counts, n < 0x10000000000000000) ∧ ∀ x ∈ s.floats, Number.Legible x :=
  ⟨fun n hn => he.counts n (List.mem_append_right _ (List.mem_flatMap.mpr ⟨s, Option.mem_toList.mpr hs, hn⟩)),
    fun x hx => he.floats x (List.mem_append_right _ (List.mem_flatMap.mpr ⟨s, Option.mem_toList.mpr hs, hx⟩))⟩

/-- An envelope is read from a form with any text from which its time stamp is read. -/
theorem Exportable.decode?_form {v : Json} {stamp : Option String} {timestamp : Option Instant}
    (hstamp : stamp.map Instant.parse? = timestamp.map some) (h : Form v (e.members stamp)) :
    decode? (ofJson v) = some { e with timestamp := timestamp } := by
  have htimestamp : ifAny (under v (lastSlot "timestamp")) = some timestamp := by
    cases stamp with
    | none =>
      cases timestamp with
      | none => exact h.ifAny_none (by simp [members])
      | some t => cases hstamp
    | some s =>
      cases timestamp with
      | none => cases hstamp
      | some t =>
        refine h.ifAny_some (w := .string s) (by simp [members, encode]) nofun ?_
        rintro u - hu
        obtain rfl := eq_of_same_string hu
        exact Option.some.inj hstamp
  have hresults : needed (under v (slot "benchmarkResults")) = some e.results :=
    h.needed (by simp [members, -Option.or_some]) (restored_list fun r hr =>
      BenchmarkResult.restored (he.result hr).1 fun x hx => ((he.result hr).2 x hx).1)
  have hsummary : ifAny (under v (lastSlot "optimizationSummary")) = some e.summary :=
    h.ifAny (by simp [members, -Option.or_some]) fun s hs =>
      ⟨Summary.restored (he.summary hs).1 fun x hx => ((he.summary hs).2 x hx).1, nofun⟩
  show (Document.slots? _ _ >>= _) = _
  rw [h.slots? (by simp [slot, lastSlot])]
  simp only [List.map_cons, List.map_nil, Option.bind_eq_bind, Option.bind_some, htimestamp, hresults, hsummary]

theorem Exportable.readable (stamp : Option String) (d : ℕ) : Json.Readable (d + 4) (.object (e.members stamp)) := by
  refine Json.readable_object.mpr ?_
  simp only [members, List.forall_mem_append, forall_mem_member, forall_mem_memberIf, readable_text, implies_true,
    true_and]
  exact ⟨(readable_list fun r hr => BenchmarkResult.readable (he.result hr).2 d).mono (by omega),
    fun s hs => Summary.readable (he.summary hs).2 d⟩

end

theorem toJson_of_none {e : Envelope} (ht : e.timestamp = none) :
    e.toJson = (Json.object (e.members none)).normalize := by
  simp only [toJson, ht, encode_eq, Option.map_none]

theorem toJson_of_some {e : Envelope} {t : Instant} (ht : e.timestamp = some t) :
    e.toJson = .object (Keyed.insert "timestamp" (.string t.millisText)
      (Json.normalizeMembers (e.members (some t.text)))) := by
  simp only [toJson, ht, encode_eq, Option.map_some, Json.normalize]

/-- The tree of an envelope is a form with its time stamp in milliseconds. -/
theorem form_toJson (e : Envelope) : Form e.toJson (e.members (e.timestamp.map Instant.millisText)) := by
  cases ht : e.timestamp with
  | none =>
    rw [toJson_of_none ht]
    exact ⟨Json.plain_normalize _, Json.same_normalize _⟩
  | some t =>
    have hsorted := Json.sorted_normalizeMembers (e.members (some t.text))
    rw [toJson_of_some ht]
    refine ⟨Json.plain_of_sorted (Keyed.sorted_insert _ _ hsorted) ?_, Json.same_insert ?_⟩
    · intro p hp
      rcases Json.mem_insert_normalizeMembers hp with heq | hp
      · exact heq ▸ .string _
      · obtain ⟨q, -, -, heq⟩ := Json.mem_normalizeMembers hp
        exact heq ▸ Json.plain_normalize q.2
    · intro key
      by_cases hkey : "timestamp" = key
      · subst hkey
        simp [members, encode]
      · simp [members, hkey]

theorem Exportable.readable_toJson {e : Envelope} (he : e.Exportable) : Json.Readable Json.maxDepth e.toJson := by
  refine Json.Readable.mono (d := 4) ?_ (by decide)
  cases ht : e.timestamp with
  | none =>
    rw [toJson_of_none ht]
    exact Json.readable_normalize (he.readable none 0)
  | some t =>
    have hmembers := Json.readable_normalize (he.readable (some t.text) 0)
    rw [Json.normalize] at hmembers
    rw [toJson_of_some ht]
    refine Json.readable_object.mpr fun p hp => ?_
    rcases Json.mem_insert_normalizeMembers hp with heq | hp
    · exact heq ▸ Json.readable_string _
    · exact Json.readable_object.mp hmembers p hp

/-- **The text of an envelope is read as the envelope with its time stamp in milliseconds.** -/
theorem Exportable.load_text {e : Envelope} (he : e.Exportable) : load e.text = .ok e.cut := by
  have hparse : Json.parse? e.text = some e.toJson := Json.parse?_pretty he.readable_toJson
  have hdecode : decode? (ofJson e.toJson) = some e.cut := by
    refine he.decode?_form ?_ e.form_toJson
    cases ht : e.timestamp with
    | none => rfl
    | some t => simp only [Option.map_some, (he.timestamp t ht).parse?_millisText]
  rw [load, hparse, Option.bind_some, hdecode]

theorem IsWhole.cut_eq {e : Envelope} (h : e.IsWhole) : e.cut = e := by
  cases ht : e.timestamp with
  | none => rw [cut, ht, Option.map_none, ← ht]
  | some t => rw [cut, ht, Option.map_some, Instant.cut_of_whole (h t ht), ← ht]

/-- **Loading undoes exporting.** The envelope comes back with its time stamp cut down to whole
milliseconds, so one whose time stamp is whole comes back as it was, and no two of them have the
same text. -/
theorem load_export (e : Envelope) (he : e.Exportable) :
    load e.text = .ok e.cut ∧ (e.IsWhole → load e.text = .ok e) ∧
      ∀ e' : Envelope, e'.Exportable → e.IsWhole → e'.IsWhole → e'.text = e.text → e' = e := by
  have hwhole : ∀ e : Envelope, e.Exportable → e.IsWhole → load e.text = .ok e := fun e he hw => by
    have hload := he.load_text
    rwa [hw.cut_eq] at hload
  refine ⟨he.load_text, hwhole e he, fun e' he' hw hw' htext => ?_⟩
  have hload : load e'.text = .ok e' := hwhole e' he' hw'
  rw [htext, hwhole e he hw] at hload
  exact (Except.ok.inj hload).symm

/-- A benchmark with a summary, a name that needs escapes and a time stamp to the nanosecond. -/
def sampleExport : Envelope where
  timestamp := some ⟨19782, ⟨45296, 123456789⟩⟩
  results := [⟨"date_to_text", "Date \"→\" text\n", .date, .text, 1000, 12.3456, 0.0123456, true, 4, 0⟩]
  summary := some
    { performance := ⟨-12.5, 0.1, some "Date to text", none, 1⟩
      improvements := [⟨"date_to_text", "Date to text", 1e-7⟩]
      cache := ⟨4, 500, 3996, 4, 0.999⟩
      advice := [.forCache .increaseTtl .medium "Longer" 300000 18446744073709551615] }

theorem exportable_sampleExport : sampleExport.Exportable where
  counts := by decide +kernel
  floats := by decide +kernel
  timestamp := by
    rintro t ⟨⟩
    exact ⟨by decide, by decide, by decide⟩

theorem exportable_cut {e : Envelope} (he : e.Exportable) : e.cut.Exportable where
  counts := he.counts
  floats := he.floats
  timestamp t ht := by
    obtain ⟨u, hu, rfl⟩ := Option.map_eq_some_iff.mp ht
    obtain ⟨hsecond, hnano, hyear⟩ := he.timestamp u hu
    refine ⟨hsecond, ?_, hyear⟩
    simp only [Instant.cut]
    omega

theorem isWhole_cut (e : Envelope) : e.cut.IsWhole := by
  intro t ht
  obtain ⟨u, hu, rfl⟩ := Option.map_eq_some_iff.mp ht
  simp only [Instant.cut]
  omega

theorem load_export_sample :
    sampleExport.Exportable ∧ load sampleExport.text = .ok sampleExport.cut ∧
      sampleExport.cut.Exportable ∧ sampleExport.cut.IsWhole ∧ load sampleExport.cut.text = .ok sampleExport.cut ∧
      ∀ e' : Envelope, e'.Exportable → e'.IsWhole → e'.text = sampleExport.cut.text → e' = sampleExport.cut := by
  have he := exportable_cut exportable_sampleExport
  obtain ⟨-, hsame, hinjective⟩ := load_export sampleExport.cut he
  refine ⟨exportable_sampleExport, (load_export sampleExport exportable_sampleExport).1, he, isWhole_cut _,
    hsame (isWhole_cut _), ?_⟩
  intro e' he' hw' htext
  exact hinjective e' he' (isWhole_cut _) hw' htext

end Envelope

end FieldBridge
