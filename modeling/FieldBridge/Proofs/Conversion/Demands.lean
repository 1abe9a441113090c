import FieldBridge.Conversion.Builtin
import Mathlib.Data.List.Basic

/-!
# Options alone make a built-in conversion fail

Each built-in conversion looks at a few options, and at all of them before it looks at the
value. So the first of these options that is not what it has to be is its failure, whatever
the value is, and where there is none every value is converted.
-/

namespace FieldBridge

/-- Whether an option may have a value. -/
def Expected.admits : Expected → Json → Bool
  | text, .string _ => true
  | boolean, .bool _ => true
  | index, .number (.int n _) => 0 ≤ n
  | numberMode, .string s => s = "float" || s = "integer"
  | datePattern, .string s => (Pattern.parse? s).isSome
  | _, _ => false

/-- An option that is looked at, and all that its value has to be. -/
structure Demand where
  option : String
  expected : List Expected

/-- The failure of the first demand that is not met. -/
def Options.failure? (o : Options) (demands : List Demand) : Option Failure :=
  demands.findSome? fun d =>
    ((o.get? d.option).bind fun v => d.expected.find? (!·.admits v)).map (.invalidOption d.option)

/-! ## Computations that look at options -/

/-- A computation that looks at no other options than it has demands on, and fails with the first
demand that is not met. -/
structure Asks {α : Type} (demands : List Demand) (f : Options → Except Failure α) : Prop where
  failure : ∀ o e, f o = .error e ↔ o.failure? demands = some e
  same : ∀ o o', (∀ d ∈ demands, o.get? d.option = o'.get? d.option) → f o = f o'

section
variable {α β : Type} {demands : List Demand}

theorem asks_nothing {f : Options → Except Failure α} (a : α) (hf : ∀ o, f o = .ok a) : Asks [] f where
  failure o e := by simp [hf, Options.failure?]
  same o o' _ := by rw [hf, hf]

/-- What is made of one option. -/
theorem asks_option {key : String} {expected : List Expected} {f : Options → Except Failure α}
    (hfailure : ∀ o e, f o = .error e ↔
      ((o.get? key).bind fun v => expected.find? (!·.admits v)).map (.invalidOption key) = some e)
    (hsame : ∀ o o', o.get? key = o'.get? key → f o = f o') : Asks [⟨key, expected⟩] f where
  failure o e := by rw [hfailure, Options.failure?, List.findSome?_singleton]
  same o o' h := hsame o o' (h ⟨key, expected⟩ List.mem_cons_self)

theorem Asks.bind {f : Options → Except Failure α} (hf : Asks demands f) (more : List Demand)
    {g : α → Options → Except Failure β} (hg : ∀ a, Asks more (g a)) :
    Asks (demands ++ more) fun o => f o >>= fun a => g a o where
  failure o e := by
    have happend : o.failure? (demands ++ more) = (o.failure? demands).or (o.failure? more) := List.findSome?_append
    rw [happend]
    cases ho : f o with
    | error e' =>
      rw [(hf.failure o e').mp ho, Option.some_or]
      constructor
      · rintro ⟨⟩
        rfl
      · rintro ⟨⟩
        rfl
    | ok a =>
      have hnone : o.failure? demands = none := by
        rw [Option.eq_none_iff_forall_ne_some]
        intro e' he'
        rw [(hf.failure o e').mpr he'] at ho
        cases ho
      rw [hnone, Option.none_or]
      exact (hg a).failure o e
  same o o' h := by
    have hfirst : f o = f o' := hf.same o o' fun d hd => h d (List.mem_append_left _ hd)
    rw [hfirst]
    cases f o' with
    | error e => rfl
    | ok a => exact (hg a).same o o' fun d hd => h d (List.mem_append_right _ hd)

theorem failure?_empty (demands : List Demand) : Options.empty.failure? demands = none := by
  simp [Options.failure?, Options.get?, Options.empty, Keyed.find?]

theorem Asks.not_error {f : Options → Except Failure α} (h : Asks demands f) {o : Options}
    (ho : o.failure? demands = none) : ∃ a, f o = .ok a := by
  cases hf : f o with
  | ok a => exact ⟨a, rfl⟩
  | error e =>
    rw [(h.failure o e).mp hf] at ho
    cases ho

end

/-! ## The options of the built-in conversions -/

theorem asks_text (key default : String) : Asks [⟨key, [.text]⟩] fun o => o.text key default := by
  refine asks_option (fun o e => ?_) fun o o' h => by unfold Options.text; rw [h]
  unfold Options.text
  cases o.get? key with
  | none => simp
  | some v => cases v <;> simp [Expected.admits]

theorem asks_flag (key : String) (default : Bool) : Asks [⟨key, [.boolean]⟩] fun o => o.flag key default := by
  refine asks_option (fun o e => ?_) fun o o' h => by unfold Options.flag; rw [h]
  unfold Options.flag
  cases o.get? key with
  | none => simp
  | some v => cases v <;> simp [Expected.admits]

theorem asks_index (key : String) (default : Nat) : Asks [⟨key, [.index]⟩] fun o => o.index key default := by
  refine asks_option (fun o e => ?_) fun o o' h => by unfold Options.index; rw [h]
  unfold Options.index
  cases o.get? key with
  | none => simp
  | some v =>
    cases v with
    | number n =>
      cases n with
      | int n _ => by_cases hn : 0 ≤ n <;> simp [Expected.admits, Number.toNat?, Number.toInt?, hn]
      | float x _ => simp [Expected.admits, Number.toNat?, Number.toInt?]
    | _ => simp [Expected.admits]

theorem asks_value {α : Type} (key : String) (default : Json) (f : Json → α) :
    Asks [⟨key, []⟩] fun o => (.ok (f (o.value key default)) : Except Failure α) := by
  refine asks_option (fun o e => ?_) fun o o' h => by unfold Options.value; rw [h]
  cases o.get? key <;> simp

theorem asks_wholeNumbers : Asks [⟨"parseMode", [.text, .numberMode]⟩] Builtin.wholeNumbers := by
  refine asks_option (fun o e => ?_) fun o o' h => by unfold Builtin.wholeNumbers Options.text; rw [h]
  unfold Builtin.wholeNumbers Options.text
  cases o.get? "parseMode" with
  | none => simp [bind, Except.bind]
  | some v =>
    cases v with
    | string s =>
      by_cases hf : s = "float"
      · simp [Expected.admits, bind, Except.bind, hf]
      · by_cases hi : s = "integer" <;> simp [Expected.admits, bind, Except.bind, hf, hi]
    | _ => simp [Expected.admits, bind, Except.bind]

theorem asks_datePattern : Asks [⟨"format", [.text, .datePattern]⟩] Builtin.datePattern := by
  refine asks_option (fun o e => ?_) fun o o' h => by unfold Builtin.datePattern Options.text; rw [h]
  unfold Builtin.datePattern Options.text
  cases o.get? "format" with
  | none =>
    have hdefault : (Pattern.parse? "%d/%m/%Y").isSome = true := by decide
    obtain ⟨p, hp⟩ := Option.isSome_iff_exists.mp hdefault
    simp [bind, Except.bind, hp]
  | some v =>
    cases v with
    | string s => cases hp : Pattern.parse? s <;> simp [Expected.admits, bind, Except.bind, hp]
    | _ => simp [Expected.admits, bind, Except.bind]

namespace Builtin

/-- The options that a built-in conversion looks at, in this order. -/
def demands : String → List Demand
  | "date_to_text" => [⟨"format", [.text, .datePattern]⟩]
  | "text_to_number" => [⟨"parseMode", [.text, .numberMode]⟩, ⟨"fallback", []⟩]
  | "text_to_multi_select" | "rich_text_to_multi_select" => [⟨"separator", [.text]⟩]
  | "files_to_text" => [⟨"includeNames", [.boolean]⟩]
  | "files_to_image" | "files_to_url" => [⟨"index", [.index]⟩]
  | "text_to_url" => [⟨"addHttps", [.boolean]⟩, ⟨"returnOriginal", [.boolean]⟩]
  | _ => []

section
variable (v : Json)

theorem asks_dateToText : Asks [⟨"format", [.text, .datePattern]⟩] (runDateToText v) :=
  asks_datePattern.bind [] fun pattern => asks_nothing (.string (dateText pattern v)) fun _ => rfl

theorem asks_textToNumber :
    Asks [⟨"parseMode", [.text, .numberMode]⟩, ⟨"fallback", []⟩] (runTextToNumber v) := by
  refine asks_wholeNumbers.bind [⟨"fallback", []⟩] fun integers => ?_
  dsimp only
  split
  case h_1 x _ =>
    let converted : Json := if integers then .int (Decimal.clampInt64 (Decimal.truncate x)) else .ofFloat x
    exact asks_value "fallback" (.int 0) fun _ => converted
  case h_2 => exact asks_value "fallback" (.int 0) id

theorem asks_splitChoices (text : String) : Asks [⟨"separator", [.text]⟩] (splitChoices text) :=
  (asks_text "separator" ",").bind [] fun _ => asks_nothing _ fun _ => rfl

theorem asks_filesToText : Asks [⟨"includeNames", [.boolean]⟩] (runFilesToText v) := by
  refine (asks_flag "includeNames" true).bind [] fun names => ?_
  split
  · exact asks_nothing _ fun _ => rfl
  · exact asks_nothing _ fun _ => rfl

theorem asks_filesToImage : Asks [⟨"index", [.index]⟩] (runFilesToImage v) :=
  (asks_index "index" 0).bind [] fun _ => asks_nothing _ fun _ => rfl

theorem asks_filesToUrl : Asks [⟨"index", [.index]⟩] (runFilesToUrl v) :=
  (asks_index "index" 0).bind [] fun _ => asks_nothing _ fun _ => rfl

theorem asks_textToUrl : Asks [⟨"addHttps", [.boolean]⟩, ⟨"returnOriginal", [.boolean]⟩] (runTextToUrl v) := by
  refine (asks_flag "addHttps" true).bind [⟨"returnOriginal", [.boolean]⟩] fun addHttps =>
    (asks_flag "returnOriginal" false).bind [] fun returnOriginal => ?_
  split
  · dsimp only
    split
    · exact asks_nothing _ fun _ => rfl
    · exact asks_nothing _ fun _ => rfl
  · exact asks_nothing _ fun _ => rfl

theorem asks_formulaToText : Asks [] (runFormulaToText v) := by
  unfold runFormulaToText
  dsimp only
  split
  · exact asks_nothing _ fun _ => rfl
  · split
    · obtain ⟨text, htext⟩ := (asks_dateToText (formulaResult v)).not_error (failure?_empty _)
      exact asks_nothing text fun _ => htext
    · exact asks_nothing _ fun _ => rfl

end

/-- The conversions that look at no option and tell apart two forms of a value. -/
theorem asks_optionless (f : Json → Options → Except Failure Json)
    (hf : f ∈ [runMultiSelectToText, runFilesToFile, runTextToDate, runNumberToCheckbox, runMultiSelectToSelect])
    (v : Json) : Asks [] (f v) := by
  suffices hok : ∃ a, ∀ o, f v o = .ok a from asks_nothing hok.choose hok.choose_spec
  simp only [List.mem_cons, List.not_mem_nil, or_false] at hf
  rcases hf with rfl | rfl | rfl | rfl | rfl
  all_goals
    simp only [runMultiSelectToText, runFilesToFile, runTextToDate, runNumberToCheckbox, runMultiSelectToSelect]
    split <;> exact ⟨_, fun _ => rfl⟩

/-- Every built-in conversion looks at its options first. -/
theorem asks_run : ∀ t ∈ builtins, ∀ v, Asks (demands t.id) (t.run v) := by
  have hnothing : ∀ f : Json → Json, ∀ v, Asks [] fun _ : Options => (.ok (f v) : Except Failure Json) := fun f v =>
    asks_nothing (f v) fun _ => rfl
  simp only [builtins, List.forall_mem_cons, List.not_mem_nil, false_imp_iff, implies_true, and_true]
  exact ⟨hnothing _, hnothing _, asks_optionless runMultiSelectToText (by simp), hnothing _, asks_dateToText,
    hnothing _, hnothing _, asks_optionless runFilesToFile (by simp), asks_filesToText, asks_filesToImage,
    asks_textToNumber, asks_optionless runTextToDate (by simp), fun v => asks_splitChoices v.display, hnothing _,
    fun v => asks_splitChoices v.plainText, asks_optionless runNumberToCheckbox (by simp), hnothing _, asks_textToUrl,
    hnothing _, asks_filesToUrl, hnothing _, asks_optionless runMultiSelectToSelect (by simp), hnothing _, hnothing _,
    hnothing _, asks_formulaToText⟩

end Builtin

/-! ## Values and options that do not matter -/

/-- Whether a conversion fails, and how, is a matter of its options alone. -/
structure OptionsDecide (t : Conversion) : Prop where
  /-- two values fail alike or are both converted -/
  alike : ∀ o v w, (∃ option expected, t.run v o = .error (.invalidOption option expected) ∧
    t.run w o = .error (.invalidOption option expected)) ∨ ∃ x y, t.run v o = .ok x ∧ t.run w o = .ok y
  fails_iff : ∀ o v, (∃ e, t.run v o = .error e) ↔ ∃ d ∈ Builtin.demands t.id, ∃ x,
    Keyed.find? d.option o.entries = some x ∧ x ≠ .null ∧ ∃ expected ∈ d.expected, expected.admits x = false
  plain : ∀ v, ∃ x, t.run v .empty = .ok x
  /-- options that are not looked at, and those that are `null`, change nothing -/
  others : ∀ o o', (∀ d ∈ Builtin.demands t.id, ∀ x, x ≠ .null →
    (Keyed.find? d.option o.entries = some x ↔ Keyed.find? d.option o'.entries = some x)) →
      ∀ v, t.run v o = t.run v o'

theorem Options.get?_eq_some_iff {o : Options} {key : String} {x : Json} :
    o.get? key = some x ↔ Keyed.find? key o.entries = some x ∧ x ≠ .null := by
  rw [get?, Option.filter_eq_some_iff]
  cases x <;> simp [Json.isNull]

theorem Options.failure?_eq_some {o : Options} {demands : List Demand} {e : Failure}
    (h : o.failure? demands = some e) : ∃ option expected, e = .invalidOption option expected := by
  obtain ⟨d, -, hd⟩ := List.exists_of_findSome?_eq_some h
  obtain ⟨expected, -, rfl⟩ := Option.map_eq_some_iff.mp hd
  exact ⟨d.option, expected, rfl⟩

theorem Options.exists_failure?_iff {o : Options} {demands : List Demand} :
    (∃ e, o.failure? demands = some e) ↔ ∃ d ∈ demands, ∃ x,
      Keyed.find? d.option o.entries = some x ∧ x ≠ .null ∧ ∃ expected ∈ d.expected, expected.admits x = false := by
  rw [← Option.isSome_iff_exists, failure?, List.findSome?_isSome_iff]
  refine exists_congr fun d => and_congr_right fun _ => ?_
  rw [Option.isSome_map, Option.isSome_iff_exists]
  simp only [Option.bind_eq_some_iff, get?_eq_some_iff]
  constructor
  · rintro ⟨expected, x, ⟨hx, hn⟩, hfind⟩
    exact ⟨x, hx, hn, expected, List.mem_of_find?_eq_some hfind, by simpa using List.find?_some hfind⟩
  · rintro ⟨x, hx, hn, expected, hmem, hno⟩
    have hsome : (d.expected.find? (!·.admits x)).isSome = true :=
      List.find?_isSome.mpr ⟨expected, hmem, by simp [hno]⟩
    obtain ⟨first, hfirst⟩ := Option.isSome_iff_exists.mp hsome
    exact ⟨first, x, ⟨hx, hn⟩, hfirst⟩

theorem optionsDecide_of_asks {t : Conversion} (h : ∀ v, Asks (Builtin.demands t.id) (t.run v)) : OptionsDecide t where
  alike o v w := by
    cases ho : o.failure? (Builtin.demands t.id) with
    | some e =>
      obtain ⟨option, expected, rfl⟩ := Options.failure?_eq_some ho
      exact .inl ⟨option, expected, ((h v).failure o _).mpr ho, ((h w).failure o _).mpr ho⟩
    | none =>
      obtain ⟨x, hx⟩ := (h v).not_error ho
      obtain ⟨y, hy⟩ := (h w).not_error ho
      exact .inr ⟨x, y, hx, hy⟩
  fails_iff o v := by simp only [(h v).failure, Options.exists_failure?_iff]
  plain v := (h v).not_error (failure?_empty _)
  others o o' hsame v := by
    refine (h v).same o o' fun d hd => Option.ext fun x => ?_
    simp only [Options.get?_eq_some_iff]
    exact ⟨fun hx => ⟨(hsame d hd x hx.2).mp hx.1, hx.2⟩, fun hx => ⟨(hsame d hd x hx.2).mpr hx.1, hx.2⟩⟩

/-- **Built-in conversions fail by their options alone.** -/
theorem builtin_optionsDecide {t : Conversion} (ht : t ∈ builtins) : OptionsDecide t :=
  optionsDecide_of_asks (Builtin.asks_run t ht)

/-- Two options of the wrong type, a value that would be refused and one that would not. -/
theorem builtin_optionsDecide_url : Builtin.textToUrl ∈ builtins ∧
    (∃ e, Builtin.textToUrl.run .null ⟨[("addHttps", .string "yes"), ("returnOriginal", .int 1)]⟩ = .error e) ∧
      (∃ x, Builtin.textToUrl.run (.string "a b") .empty = .ok x) ∧
        Builtin.textToUrl.run (.string "a b") ⟨[("addHttps", .null), ("separator", .int 1)]⟩ =
          Builtin.textToUrl.run (.string "a b") .empty := by
  have ht : Builtin.textToUrl ∈ builtins := List.mem_of_getElem? (i := 17) rfl
  refine ⟨ht, ?_, (builtin_optionsDecide ht).plain _, (builtin_optionsDecide ht).others _ _ ?_ _⟩
  · rw [(builtin_optionsDecide ht).fails_iff]
    exact ⟨⟨"addHttps", [.boolean]⟩, List.mem_cons_self, .string "yes", rfl, nofun, .boolean, List.mem_cons_self, rfl⟩
  · intro d hd x hx
    rcases List.mem_cons.mp hd with rfl | hd
    · simp [Keyed.find?, Options.empty, hx.symm]
    · rcases List.mem_singleton.mp hd with rfl
      simp [Keyed.find?, Options.empty]

end FieldBridge
