import FieldBridge.Export.Csv
import FieldBridge.Proofs.Decimal.Places
import Mathlib

/-!
# Reading comma-separated values back

A reader passes over a text once, character by character, and remembers where it stands
in a field. It takes bare fields of printable characters only, with no quote and no comma
among them, and fields in quotes of any characters. A field that spells a number is written
bare and has no other characters; every other field is written in quotes. So a table is
read back as it was, whatever the texts in it are.
-/

namespace FieldBridge

/-! ## Texts that spell a number -/

namespace Decimal

/-- The characters of all spellings of a number, the words among them. -/
def isSpelling (c : Char) : Bool := c.isAlphanum || c == '+' || c == '-' || c == '.'

theorem isSpelling_of_isDigit {c : Char} (h : c.isDigit = true) : isSpelling c = true := by
  simp [isSpelling, Char.isAlphanum, h]

theorem isSpelling_of_toLower {c : Char} (h : isSpelling c.toLower = true) : isSpelling c = true := by
  by_cases hupper : c.val ≥ 'A'.val ∧ c.val ≤ 'Z'.val
  · have halpha : c.isAlpha = true := by
      simp only [Char.isAlpha, Char.isUpper, Bool.or_eq_true, decide_eq_true_eq]
      exact .inl hupper
    simp [isSpelling, Char.isAlphanum, halpha]
  · rwa [Char.toLower, dif_neg hupper] at h

theorem isSpelling_of_mem_word {word : String} (hw : word.toList.all isSpelling = true) {cs : List Char}
    (h : String.ofList (cs.map Char.toLower) = word) : ∀ c ∈ cs, isSpelling c = true := by
  intro c hc
  have hmem : c.toLower ∈ word.toList := by
    rw [← h, String.toList_ofList]
    exact List.mem_map_of_mem hc
  exact isSpelling_of_toLower (List.all_eq_true.mp hw _ hmem)

/-- A sign is taken off, or there is none. -/
theorem takeSign_cases (cs : List Char) :
    (∃ sign, isSpelling sign = true ∧ cs = sign :: (takeSign cs).2) ∨ (takeSign cs).2 = cs := by
  unfold takeSign
  split
  · exact .inl ⟨'-', rfl, rfl⟩
  · exact .inl ⟨'+', rfl, rfl⟩
  · exact .inr rfl

theorem isSpelling_of_mem_takeSign {cs : List Char} (h : ∀ c ∈ (takeSign cs).2, isSpelling c = true) :
    ∀ c ∈ cs, isSpelling c = true := by
  rcases takeSign_cases cs with ⟨sign, hsign, hcs⟩ | hcs
  · rw [hcs]
    exact List.forall_mem_cons.mpr ⟨hsign, h⟩
  · rwa [hcs] at h

theorem isSpelling_of_exponent? {cs : List Char} (h : (exponent? cs).isSome = true) :
    ∀ c ∈ cs, isSpelling c = true := by
  cases cs with
  | nil => simp
  | cons c cs =>
    by_cases he : c = 'e' ∨ c = 'E'
    · have hall : (takeSign cs).2.all Char.isDigit = true := by
        by_contra hn
        rw [Bool.not_eq_true] at hn
        simp only [exponent?, if_pos he, hn, Bool.not_false, Bool.or_true, ↓reduceIte] at h
        simp at h
      refine List.forall_mem_cons.mpr ⟨?_, isSpelling_of_mem_takeSign fun d hd => ?_⟩
      · rcases he with rfl | rfl <;> decide
      · exact isSpelling_of_isDigit (List.all_eq_true.mp hall d hd)
    · simp [exponent?, he] at h

theorem isSpelling_of_mem_takeWhile {cs : List Char} : ∀ c ∈ cs.takeWhile Char.isDigit, isSpelling c = true :=
  fun c hc => isSpelling_of_isDigit (List.all_eq_true.mp (List.all_takeWhile ..) c hc)

/-- The part behind the whole digits: a point and more digits or none, and an exponent. -/
theorem isSpelling_of_decimal? {cs : List Char} (h : (decimal? cs).isSome = true) :
    cs ≠ [] ∧ ∀ c ∈ cs, isSpelling c = true := by
  refine ⟨fun hnil => ?_, ?_⟩
  · subst hnil
    simp [decimal?] at h
  · unfold decimal? at h
    simp only at h
    rw [← List.takeWhile_append_dropWhile (p := Char.isDigit) (l := cs), List.forall_mem_append]
    refine ⟨isSpelling_of_mem_takeWhile, ?_⟩
    generalize cs.takeWhile Char.isDigit = whole at h
    generalize cs.dropWhile Char.isDigit = rest at h
    have htail : ∀ (empty : Bool) (tail : List Char) (f : ℤ → Exact),
        (if empty = true then none else (exponent? tail).map f).isSome = true →
          ∀ c ∈ tail, isSpelling c = true := by
      intro empty tail f hsome
      cases empty with
      | true => simp at hsome
      | false => exact isSpelling_of_exponent? (by simpa using hsome)
    split at h
    case h_1 more =>
      rw [← List.takeWhile_append_dropWhile (p := Char.isDigit) (l := more), List.forall_mem_cons,
        List.forall_mem_append]
      exact ⟨rfl, isSpelling_of_mem_takeWhile, htail _ _ _ h⟩
    case h_2 => exact htail _ _ _ h

/-- A text that spells a number is not empty, and has few characters to choose from. -/
theorem isSpelling_of_float? {s : String} (h : (float? s).isSome = true) :
    s.toList ≠ [] ∧ ∀ c ∈ s.toList, isSpelling c = true := by
  suffices hbody : (takeSign s.toList).2 ≠ [] ∧ ∀ c ∈ (takeSign s.toList).2, isSpelling c = true by
    refine ⟨fun hnil => hbody.1 ?_, isSpelling_of_mem_takeSign hbody.2⟩
    rw [hnil]
    rfl
  unfold float? at h
  simp only [Option.isSome_map] at h
  generalize (takeSign s.toList).2 = cs at h
  have hword : ∀ word : String, word.toList.all isSpelling = true → word ≠ "" →
      String.ofList (cs.map Char.toLower) = word → cs ≠ [] ∧ ∀ c ∈ cs, isSpelling c = true := by
    intro word hw hne heq
    refine ⟨fun hnil => hne ?_, isSpelling_of_mem_word hw heq⟩
    rw [← heq, hnil]
    rfl
  split at h
  case h_1 heq => exact hword "inf" (by decide) (by decide) heq
  case h_2 heq => exact hword "infinity" (by decide) (by decide) heq
  case h_3 heq => exact hword "nan" (by decide) (by decide) heq
  case h_4 => exact isSpelling_of_decimal? (by rwa [Option.isSome_map] at h)

end Decimal

/-! ## The reader -/

namespace Csv

/-- Where a reader stands in a row: before a field, in one, or behind a quote, which ends the
field unless another quote follows. -/
inductive Mode where
  | start
  | bare
  | quoted
  | closing
  deriving DecidableEq, Repr

/-- A reader within a text: the field and the row it is in, and the rows that are done. -/
structure Reader where
  mode : Mode := .start
  cell : List Char := []
  cells : List String := []
  rows : List (List String) := []
  deriving DecidableEq, Repr

/-- The characters of a field without quotes: the printable ones of ASCII but a quote and a comma. -/
def isBare (c : Char) : Bool := ' ' ≤ c && c ≤ '~' && c != '"' && c != ','

namespace Reader

def endField (r : Reader) : Reader :=
  { mode := .start, cell := [], cells := r.cells ++ [String.ofList r.cell], rows := r.rows }

def endRow (r : Reader) : Reader :=
  { mode := .start, cell := [], cells := [], rows := r.rows ++ [r.endField.cells] }

/-- Passes over one character; `none` where a text of rows cannot go on with it. -/
def step (r : Reader) (c : Char) : Option Reader :=
  match r.mode, c with
  | .quoted, '"' => some { r with mode := .closing }
  | .quoted, c => some { r with cell := r.cell ++ [c] }
  | _, ',' => some r.endField
  | _, '\n' => some r.endRow
  | .start, '"' => some { r with mode := .quoted }
  | .closing, '"' => some { r with mode := .quoted, cell := r.cell ++ ['"'] }
  | .closing, _ => none
  | _, c => if isBare c then some { r with mode := .bare, cell := r.cell ++ [c] } else none

/-- The rows at the end of a text. The last row may do without its line feed. -/
def finish (r : Reader) : Option (List (List String)) :=
  match r.mode, r.cells with
  | .quoted, _ => none
  | .start, [] => some r.rows
  | _, _ => some r.endRow.rows

end Reader

/-- The rows of a text, or `none` where it is no text of rows. -/
def read? (s : String) : Option (List (List String)) := (s.toList.foldlM Reader.step {}).bind Reader.finish

theorem isBare_of_isSpelling {c : Char} (h : Decimal.isSpelling c = true) : isBare c = true := by
  have hle : ∀ a b : Char, a ≤ b ↔ a.toNat ≤ b.toNat := fun _ _ => Iff.rfl
  have hne : ∀ d : Char, c ≠ d ↔ c.toNat ≠ d.toNat := fun d => by rw [ne_eq, ← Char.toNat_inj]
  simp only [Decimal.isSpelling, Char.isAlphanum, Char.isAlpha, Char.isUpper, Char.isLower, Char.isDigit,
    Bool.or_eq_true, Bool.and_eq_true, decide_eq_true_eq, beq_iff_eq, ← Char.toNat_inj, UInt32.le_iff_toNat_le,
    ge_iff_le, Char.toNat_val] at h
  simp only [isBare, Bool.and_eq_true, decide_eq_true_eq, bne_iff_ne, hle, hne]
  simp at h ⊢
  omega

namespace Reader

section
variable (cs cell : List Char) (cells : List String) (rows : List (List String))

theorem run_quoteChar (c : Char) :
    (quoteChar c).foldlM step ⟨.quoted, cell, cells, rows⟩ = some ⟨.quoted, cell ++ [c], cells, rows⟩ := by
  unfold quoteChar
  split
  case isTrue hc => subst hc; rfl
  case isFalse => simp [step]

/-- A body between quotes is taken as it is, whatever its characters. -/
theorem run_quoted : (cs.flatMap quoteChar).foldlM step ⟨.quoted, cell, cells, rows⟩ =
    some ⟨.quoted, cell ++ cs, cells, rows⟩ := by
  induction cs generalizing cell with
  | nil => simp
  | cons c cs ih =>
    rw [List.flatMap_cons, List.foldlM_append, run_quoteChar, Option.bind_eq_bind, Option.bind_some, ih]
    simp

theorem step_bare {m : Mode} (hm : m = .start ∨ m = .bare) {c : Char} (hc : isBare c = true) :
    step ⟨m, cell, cells, rows⟩ c = some ⟨.bare, cell ++ [c], cells, rows⟩ := by
  have hcomma : c ≠ ',' := by rintro rfl; cases hc
  have hbreak : c ≠ '\n' := by rintro rfl; cases hc
  have hquote : c ≠ '"' := by rintro rfl; cases hc
  rcases hm with rfl | rfl <;>
  · unfold step
    split <;> simp_all

theorem run_bare (hcs : ∀ c ∈ cs, isBare c = true) :
    cs.foldlM step ⟨.bare, cell, cells, rows⟩ = some ⟨.bare, cell ++ cs, cells, rows⟩ := by
  induction cs generalizing cell with
  | nil => simp
  | cons c cs ih =>
    obtain ⟨hc, hcs⟩ := List.forall_mem_cons.mp hcs
    rw [List.foldlM_cons, step_bare _ _ _ (.inr rfl) hc, Option.bind_eq_bind, Option.bind_some, ih _ hcs]
    simp

/-- A field leaves its text behind, and the reader in a state that a comma or a line feed ends. -/
theorem run_field (s : String) : ∃ m, (m = .bare ∨ m = .closing) ∧
    (field s).toList.foldlM step ⟨.start, [], cells, rows⟩ = some ⟨m, s.toList, cells, rows⟩ := by
  unfold field
  split
  case isTrue h =>
    refine ⟨.bare, .inl rfl, ?_⟩
    obtain ⟨hne, hall⟩ := Decimal.isSpelling_of_float? h
    obtain ⟨c, cs, hs⟩ := List.exists_cons_of_ne_nil hne
    rw [hs, List.forall_mem_cons] at hall
    rw [hs, List.foldlM_cons, step_bare _ _ _ (.inl rfl) (isBare_of_isSpelling hall.1), Option.bind_eq_bind,
      Option.bind_some, run_bare _ _ _ _ fun d hd => isBare_of_isSpelling (hall.2 d hd)]
    rfl
  case isFalse =>
    refine ⟨.closing, .inr rfl, ?_⟩
    rw [String.toList_ofList, List.cons_append, List.foldlM_cons]
    show ((s.toList.flatMap quoteChar ++ ['"']).foldlM step ⟨.quoted, [], cells, rows⟩) = _
    rw [List.foldlM_append, run_quoted]
    rfl

variable (rest : List Char)

theorem run_comma (s : String) : ((field s).toList ++ ',' :: rest).foldlM step ⟨.start, [], cells, rows⟩ =
    rest.foldlM step ⟨.start, [], cells ++ [s], rows⟩ := by
  obtain ⟨m, hm, hrun⟩ := run_field cells rows s
  rw [List.foldlM_append, hrun, Option.bind_eq_bind, Option.bind_some, List.foldlM_cons]
  rcases hm with rfl | rfl <;> simp [step, endField]

theorem run_break (s : String) : ((field s).toList ++ '\n' :: rest).foldlM step ⟨.start, [], cells, rows⟩ =
    rest.foldlM step ⟨.start, [], [], rows ++ [cells ++ [s]]⟩ := by
  obtain ⟨m, hm, hrun⟩ := run_field cells rows s
  rw [List.foldlM_append, hrun, Option.bind_eq_bind, Option.bind_some, List.foldlM_cons]
  rcases hm with rfl | rfl <;> simp [step, endRow, endField]

/-- A row of at least one field is read as a whole. -/
theorem run_row (s : String) (more : List String) :
    ((Csv.row (s :: more)).toList ++ rest).foldlM step ⟨.start, [], cells, rows⟩ =
      rest.foldlM step ⟨.start, [], [], rows ++ [cells ++ s :: more]⟩ := by
  induction more generalizing s cells with
  | nil =>
    rw [← run_break]
    simp [Csv.row, Text.join]
  | cons t more ih =>
    have hrow : (Csv.row (s :: t :: more)).toList = (field s).toList ++ ',' :: (Csv.row (t :: more)).toList := by
      simp [Csv.row, Text.join]
    rw [hrow, List.append_assoc, List.cons_append, run_comma, ih]
    simp

/-- Rows are read one after another, the reader being before a field again behind each of them. -/
theorem run_rows {table : List (List String)} (htable : ∀ row ∈ table, row ≠ []) :
    (table.flatMap fun row => (Csv.row row).toList).foldlM step ⟨.start, [], [], rows⟩ =
      some ⟨.start, [], [], rows ++ table⟩ := by
  induction table generalizing rows with
  | nil => simp
  | cons row table ih =>
    obtain ⟨hrow, hmore⟩ := List.forall_mem_cons.mp htable
    obtain ⟨s, more, rfl⟩ := List.exists_cons_of_ne_nil hrow
    rw [List.flatMap_cons, run_row, ih _ hmore]
    simp

end

end Reader

/-- **A table is read back as it was written**, whatever the texts in it are. -/
theorem read?_join_row {table : List (List String)} (htable : ∀ row ∈ table, row ≠ []) :
    read? (String.join (table.map row)) = some table := by
  have hchars : (String.join (table.map row)).toList = table.flatMap fun r => (row r).toList := by
    rw [String.toList_join, List.flatMap_map]
  rw [read?, hchars]
  show (List.foldlM Reader.step ⟨.start, [], [], []⟩ _).bind Reader.finish = some table
  rw [Reader.run_rows _ htable]
  rfl

-- Bare spellings of numbers, and a text that every rule of quoting is needed for.
example : row ["", "1e5", "NaN", "+3", "a,\"b\"\r\n"] = "\"\",1e5,NaN,+3,\"a,\"\"b\"\"\r\n\"\n" ∧
    read? "\"\",1e5,NaN,+3,\"a,\"\"b\"\"\r\n\"\n" = some [["", "1e5", "NaN", "+3", "a,\"b\"\r\n"]] ∧
    read? "a\"b\n" = none ∧ read? "\"a" = none := by
  decide +kernel

/-! ## Exports -/

/-- Two results that are written alike. Their ids may differ, and their times beyond two decimals. -/
structure SameRow (r s : BenchmarkResult) : Prop where
  name : r.name = s.name
  source : r.source = s.source
  target : r.target = s.target
  iterations : r.iterations = s.iterations
  totalTime : Decimal.fixed 2 r.totalTime = Decimal.fixed 2 s.totalTime
  averageTime : Decimal.fixed 2 r.averageTime = Decimal.fixed 2 s.averageTime
  cached : r.cached = s.cached
  samples : r.samples = s.samples
  failures : r.failures = s.failures

theorem kind_eq_of_name {k l : Kind} (h : k.name = l.name) : k = l := by
  rw [← Option.some_inj, ← Kind.ofName?_name k, h, Kind.ofName?_name]

theorem fields_eq_iff {r s : BenchmarkResult} : fields r = fields s ↔ SameRow r s := by
  constructor
  · intro h
    simp only [fields, List.cons.injEq, and_true] at h
    obtain ⟨hname, hsource, htarget, hiterations, htotal, haverage, hcached, hsamples, hfailures⟩ := h
    have hyes : r.cached = s.cached := by
      revert hcached
      cases r.cached <;> cases s.cached <;> decide
    exact ⟨hname, kind_eq_of_name hsource, kind_eq_of_name htarget, Nat.repr_injective hiterations, htotal, haverage,
      hyes, Nat.repr_injective hsamples, Nat.repr_injective hfailures⟩
  · intro h
    simp only [fields, h.name, h.source, h.target, h.iterations, h.totalTime, h.averageTime, h.cached, h.samples,
      h.failures]

theorem text_eq_join (results : List BenchmarkResult) :
    text results = String.join ((header :: results.map fields).map row) := by
  rw [text, List.map_cons, List.map_map]
  rfl

theorem read?_text (results : List BenchmarkResult) : read? (text results) = some (header :: results.map fields) := by
  rw [text_eq_join]
  refine read?_join_row (List.forall_mem_cons.mpr ⟨List.cons_ne_nil _ _, ?_⟩)
  intro cells hcells
  obtain ⟨r, _, rfl⟩ := List.mem_map.mp hcells
  exact List.cons_ne_nil _ _

theorem text_eq_iff {results others : List BenchmarkResult} :
    text results = text others ↔ List.Forall₂ SameRow results others := by
  have hfields : text results = text others ↔ results.map fields = others.map fields := by
    constructor
    · intro h
      have hread := read?_text results
      rw [h, read?_text, Option.some_inj, List.cons_inj_right] at hread
      exact hread.symm
    · intro h
      rw [text_eq_join, text_eq_join, h]
  rw [hfields, ← List.forall₂_eq_eq_eq, List.forall₂_map_left_iff, List.forall₂_map_right_iff]
  simp only [fields_eq_iff]

/-- **Exports are read back row by row**: nine columns, and a row of nine fields for each result, the
times rounded to two decimals. So exports that are the same text are of results that agree in
all that is written. -/
theorem text_readsBack (results : List BenchmarkResult) :
    read? (text results) = some (["Transformation", "Source Kind", "Target Kind", "Iterations", "Total Time (ms)",
        "Average Time (ms)", "Cached", "Samples", "Failures"] ::
      results.map fun r => [r.name, r.source.name, r.target.name, toString r.iterations,
        Decimal.fixed 2 r.totalTime, Decimal.fixed 2 r.averageTime, if r.cached then "Yes" else "No",
        toString r.samples, toString r.failures]) ∧
    (∀ r ∈ results, ∀ time ∈ [r.totalTime, r.averageTime], time.isFinite = true →
      Decimal.Rounds 2 time (Decimal.fixed 2 time)) ∧
    ∀ others, text results = text others ↔ List.Forall₂ SameRow results others :=
  ⟨read?_text results, fun _ _ _ _ => Decimal.fixed_rounds 2, fun _ => text_eq_iff⟩

end Csv

end FieldBridge
