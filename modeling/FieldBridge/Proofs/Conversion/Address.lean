import FieldBridge.Conversion.Builtin.Reading
import FieldBridge.Proofs.Text.Blank

/-!
# Addresses in texts

What a text gives as an address is settled: read once more, the address gives itself. It is
the text without the blanks around it, completed by a scheme only where one was missing. Which
texts are addresses is left open.
-/

namespace FieldBridge.Builtin

open Text

/-- Letters, a colon and two slashes at the start of a text. -/
def HasScheme (cs : List Char) : Prop :=
  ∃ letters rest, letters ≠ [] ∧ (∀ c ∈ letters, c.isAlpha = true) ∧ cs = letters ++ "://".toList ++ rest

/-- A text with `https://` in front exactly when it is to be added and there is no scheme. -/
inductive Completed (addHttps : Bool) (text : String) : String → Prop where
  | added : addHttps = true → ¬HasScheme text.toList → Completed addHttps text ("https://" ++ text)
  | asIs : (addHttps = true → HasScheme text.toList) → Completed addHttps text text

/-- The truth value that options give for a name; `null` counts as no value. -/
inductive Gives (o : Options) (key : String) (default : Bool) : Bool → Prop where
  | absent : o.get? key = none → Gives o key default default
  | given {b : Bool} : o.get? key = some (.bool b) → Gives o key default b

/-- What a value gives as an address. -/
inductive Outcome (accepts : String → Bool) (addHttps returnOriginal : Bool) : Json → Json → Prop where
  | noText {v : Json} : (∀ s, v = .string s → isBlankText s = true) → Outcome accepts addHttps returnOriginal v .null
  | address {s candidate : String} : isBlankText s = false → Completed addHttps (trim s) candidate →
      accepts candidate = true → Outcome accepts addHttps returnOriginal (.string s) (.string candidate)
  | original {s candidate : String} : isBlankText s = false → Completed addHttps (trim s) candidate →
      accepts candidate = false → returnOriginal = true →
        Outcome accepts addHttps returnOriginal (.string s) (.string s)
  | refused {s candidate : String} : isBlankText s = false → Completed addHttps (trim s) candidate →
      accepts candidate = false → returnOriginal = false →
        Outcome accepts addHttps returnOriginal (.string s) .null

variable {accepts : String → Bool} {addHttps returnOriginal : Bool} {v r : Json} {s text candidate : String}
  {o : Options}

/-! ## Schemes -/

theorem hasScheme_iff (cs : List Char) : hasScheme cs = true ↔ HasScheme cs := by
  unfold hasScheme
  rw [Bool.and_eq_true, List.isPrefixOf_iff_prefix]
  constructor
  · rintro ⟨hfirst, rest, hrest⟩
    refine ⟨cs.takeWhile Char.isAlpha, rest, ?_, fun c hc => List.mem_takeWhile_imp hc, ?_⟩
    · cases cs with
      | nil => simp at hfirst
      | cons c cs =>
        have hc : c.isAlpha = true := by simpa using hfirst
        simp [hc]
    · rw [List.append_assoc, hrest, List.takeWhile_append_dropWhile]
  · rintro ⟨letters, rest, hne, hletters, rfl⟩
    rw [List.append_assoc, List.dropWhile_append_of_pos hletters]
    constructor
    · cases letters with
      | nil => exact absurd rfl hne
      | cons c letters => simp [hletters c List.mem_cons_self]
    · exact ⟨rest, by simp⟩

theorem completed_eq_iff : completed addHttps text = candidate ↔ Completed addHttps text candidate := by
  unfold completed
  by_cases hscheme : HasScheme text.toList
  · have hhas := (hasScheme_iff _).mpr hscheme
    simp only [hhas, Bool.not_true, Bool.and_false, Bool.false_eq_true, ↓reduceIte]
    constructor
    · rintro rfl
      exact .asIs fun _ => hscheme
    · intro h
      cases h with
      | added _ hno => exact absurd hscheme hno
      | asIs _ => rfl
  · have hno : hasScheme text.toList = false := by
      rw [← Bool.not_eq_true, hasScheme_iff]
      exact hscheme
    cases addHttps with
    | true =>
      simp only [hno, Bool.not_false, Bool.and_true, ↓reduceIte]
      constructor
      · rintro rfl
        exact .added rfl hscheme
      · intro h
        cases h with
        | added _ _ => rfl
        | asIs hhas => exact absurd (hhas rfl) hscheme
    | false =>
      simp only [Bool.false_and, Bool.false_eq_true, ↓reduceIte]
      constructor
      · rintro rfl
        exact .asIs nofun
      · intro h
        cases h with
        | added hadd _ => cases hadd
        | asIs _ => rfl

/-! ## A completed text -/

theorem hasScheme_https (text : String) : HasScheme ("https://" ++ text).toList :=
  ⟨"https".toList, text.toList, by decide, by simp, by simp⟩

theorem trim_https (hblank : isBlankText s = false) : trim ("https://" ++ trim s) = "https://" ++ trim s := by
  have hne : trimmed s.toList ≠ [] := by
    rw [ne_eq, trimmed_eq_nil_iff]
    simpa [isBlankText] using hblank
  have hunpadded : Unpadded ("https://".toList ++ trimmed s.toList) := by
    constructor
    · simp [isBlank]
    · rw [List.getLast?_append_of_ne_nil _ hne]
      exact (unpadded_trimmed s.toList).last
  have hlist : ("https://" ++ trim s).toList = "https://".toList ++ trimmed s.toList := by simp [trim]
  rw [trim, hlist, hunpadded.trimmed, ← hlist, String.ofList_toList]

/-- A text that is completed stays as it is when it is read again. -/
theorem Completed.again (h : Completed addHttps (trim s) candidate) (hblank : isBlankText s = false) :
    isBlankText candidate = false ∧ Completed addHttps (trim candidate) candidate := by
  have htrim : trim candidate = candidate := by
    cases h with
    | added _ _ => exact trim_https hblank
    | asIs _ => exact trim_trim s
  constructor
  · rw [← isEmpty_trim, htrim]
    cases h with
    | added _ _ => simp
    | asIs _ => rw [isEmpty_trim, hblank]
  · rw [htrim]
    cases h with
    | added _ _ => exact .asIs fun _ => hasScheme_https _
    | asIs hscheme => exact .asIs hscheme

/-! ## What is read -/

theorem Outcome.settled (h : Outcome accepts addHttps returnOriginal v r) :
    Outcome accepts addHttps returnOriginal r r := by
  cases h with
  | noText _ => exact .noText nofun
  | address hblank hcompleted haccepts =>
    obtain ⟨hagain, hsame⟩ := hcompleted.again hblank
    exact .address hagain hsame haccepts
  | original hblank hcompleted hrefused hreturn => exact .original hblank hcompleted hrefused hreturn
  | refused _ _ _ _ => exact .noText nofun

theorem exists_of_bind_eq_ok {ε α β : Type} {x : Except ε α} {f : α → Except ε β} {b : β} (h : x >>= f = .ok b) :
    ∃ a, x = .ok a ∧ f a = .ok b := by
  cases x with
  | error e => cases h
  | ok a => exact ⟨a, rfl, h⟩

theorem flag_eq_ok_iff {key : String} {default b : Bool} : o.flag key default = .ok b ↔ Gives o key default b := by
  unfold Options.flag
  constructor
  · intro h
    split at h
    · cases h
      exact .absent ‹_›
    · cases h
      exact .given ‹_›
    · cases h
  · intro h
    cases h with
    | absent hget => rw [hget]
    | given hget => rw [hget]

theorem outcome_iff (hadd : o.flag "addHttps" true = .ok addHttps)
    (hreturn : o.flag "returnOriginal" false = .ok returnOriginal) :
    readAddress accepts v o = .ok r ↔ Outcome accepts addHttps returnOriginal v r := by
  unfold readAddress
  rw [hadd, hreturn]
  cases v with
  | string s =>
    have hcompleted : Completed addHttps (trim s) (completed addHttps (trim s)) := completed_eq_iff.mp rfl
    simp only [bind, Except.bind, isEmpty_trim]
    constructor
    · intro h
      split_ifs at h with hblank haccepts hgive <;> cases h
      · exact .noText fun t ht => Json.string.inj ht ▸ hblank
      · exact .address (by simpa using hblank) hcompleted haccepts
      · exact .original (by simpa using hblank) hcompleted (by simpa using haccepts) hgive
      · exact .refused (by simpa using hblank) hcompleted (by simpa using haccepts) (by simpa using hgive)
    · intro h
      cases h with
      | noText hblank => simp [hblank s rfl]
      | address hblank hc haccepts => simp [hblank, completed_eq_iff.mpr hc, haccepts]
      | original hblank hc hrefused hgive => simp [hblank, completed_eq_iff.mpr hc, hrefused, hgive]
      | refused hblank hc hrefused hgive => simp [hblank, completed_eq_iff.mpr hc, hrefused, hgive]
  | _ =>
    constructor
    · rintro ⟨⟩
      exact .noText nofun
    · rintro ⟨⟩
      rfl

/-- **An address is settled.** A value gives an address, itself or nothing, as the options say, and what
it gives is given again when it is read once more. -/
theorem readAddress_settles (accepts : String → Bool) (v : Json) (o : Options) :
    (∀ r, readAddress accepts v o = .ok r ↔ ∃ addHttps returnOriginal, Gives o "addHttps" true addHttps ∧
      Gives o "returnOriginal" false returnOriginal ∧ Outcome accepts addHttps returnOriginal v r) ∧
    (readAddress accepts v o >>= fun r => readAddress accepts r o) = readAddress accepts v o := by
  have houtcome : ∀ r, readAddress accepts v o = .ok r ↔ ∃ addHttps returnOriginal,
      Gives o "addHttps" true addHttps ∧ Gives o "returnOriginal" false returnOriginal ∧
        Outcome accepts addHttps returnOriginal v r := by
    intro r
    constructor
    · intro h
      obtain ⟨addHttps, hadd, hrest⟩ := exists_of_bind_eq_ok h
      obtain ⟨returnOriginal, hreturn, -⟩ := exists_of_bind_eq_ok hrest
      exact ⟨addHttps, returnOriginal, flag_eq_ok_iff.mp hadd, flag_eq_ok_iff.mp hreturn,
        (outcome_iff hadd hreturn).mp h⟩
    · rintro ⟨addHttps, returnOriginal, hadd, hreturn, h⟩
      exact (outcome_iff (flag_eq_ok_iff.mpr hadd) (flag_eq_ok_iff.mpr hreturn)).mpr h
  refine ⟨houtcome, ?_⟩
  cases hread : readAddress accepts v o with
  | error e => rfl
  | ok r =>
    obtain ⟨addHttps, returnOriginal, hadd, hreturn, h⟩ := (houtcome r).mp hread
    exact (outcome_iff (flag_eq_ok_iff.mpr hadd) (flag_eq_ok_iff.mpr hreturn)).mpr h.settled

/-- What is refused is given back with its blanks. -/
example : readAddress (fun _ => false) (.string " a b ") ⟨[("returnOriginal", .bool true)]⟩ = .ok (.string " a b ") := by
  rfl

end FieldBridge.Builtin
