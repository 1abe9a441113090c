import FieldBridge.Storage.Files
import FieldBridge.Proofs.Decimal.Text
import FieldBridge.Proofs.Storage.Path

/-!
# Files of one directory

Where a directory stands, the paths inside it lead one name further, and distinct
names lead to distinct places. Writing a file changes what is at its own place and no
directory.
-/

namespace FieldBridge

/-! ## Names of files -/

namespace Path

/-- A name that leads to a place below. -/
structure IsLeaf (file : String) : Prop extends IsName file where
  below : file ≠ ".."
  valid : Char.ofNat 0 ∉ file.toList

theorem isLeaf_append {stem ending : String} (hs : '/' ∉ stem.toList) (hvalid : Char.ofNat 0 ∉ stem.toList)
    (he : ending ∈ ["json", "yaml", "yml"]) : IsLeaf (stem ++ "." ++ ending) := by
  have hending : '/' ∉ ending.toList ∧ Char.ofNat 0 ∉ ending.toList ∧ 2 ≤ ending.toList.length := by
    revert he ending
    decide
  have hlong : 3 ≤ (stem ++ "." ++ ending).toList.length := by
    simp only [String.toList_append, List.length_append]
    have hdot : ".".toList.length = 1 := rfl
    omega
  have hne : ∀ short : String, short.toList.length ≤ 2 → stem ++ "." ++ ending ≠ short := by
    rintro short hshort rfl
    omega
  refine ⟨⟨?_, ?_⟩, hne ".." (by decide), ?_⟩
  · simp [hs, hending.1]
  · simp [isIdle, hne "" (by decide), hne "." (by decide)]
  · have hdot : Char.ofNat 0 ∉ ".".toList := by decide
    simp only [String.toList_append, List.mem_append, not_or]
    exact ⟨⟨hvalid, hdot⟩, hending.2.1⟩

section
variable {file : String} (h : IsLeaf file)
include h

theorem IsLeaf.ne_root : file ≠ "/" := by
  rintro rfl
  exact h.free (by decide)

theorem IsLeaf.ne_dot : file ≠ "." := by
  rintro rfl
  exact absurd h.named (by decide)

theorem IsLeaf.name?_join (directory : String) : name? (join directory file) = some file := by
  rw [name?, h.names_join directory, List.getLast?_append]
  simp [h.ne_root, h.ne_dot, h.below]

end

/-- The stem and the ending of a name are told by it. -/
theorem ending_inj {stem stem' ending ending' : String} (he : '.' ∉ ending.toList) (he' : '.' ∉ ending'.toList)
    (h : stem ++ "." ++ ending = stem' ++ "." ++ ending') : stem = stem' ∧ ending = ending' := by
  have hfree : ∀ e : String, '.' ∉ e.toList → ∀ c ∈ e.toList.reverse, (c != '.') = true := by
    intro e he c hc
    rw [bne_iff_ne]
    rintro rfl
    exact he (List.mem_reverse.mp hc)
  have hrev : ending.toList.reverse ++ '.' :: stem.toList.reverse =
      ending'.toList.reverse ++ '.' :: stem'.toList.reverse := by
    simpa using congrArg (fun s : String => s.toList.reverse) h
  obtain ⟨hending, hstem⟩ := Decimal.append_stop_inj (hfree ending he) (hfree ending' he')
    (Decimal.stopsAt_cons (by decide) _) (Decimal.stopsAt_cons (by decide) _) hrev
  exact ⟨String.toList_inj.mp (List.reverse_inj.mp (List.cons.inj hstem).2),
    String.toList_inj.mp (List.reverse_inj.mp hending)⟩

/-- A path that names a file, taken apart: its pieces end with the name, and the name is a stem with
an ending. -/
theorem exists_name {path ending : String} (hclosed : isOpenEnded path = false) (hvalid : Char.ofNat 0 ∉ path.toList)
    (hending : extension? path = some ending) : ∃ (before : List String) (stem : String),
      Text.split "/" path = before ++ [stem ++ "." ++ ending] ∧ IsLeaf (stem ++ "." ++ ending) ∧
        stem? path = some stem := by
  obtain ⟨before, file, hsplit⟩ : ∃ before file, Text.split "/" path = before ++ [file] :=
    ⟨_, _, (List.dropLast_append_getLast (Text.split_ne_nil path)).symm⟩
  have hnamed : isIdle file = false := by simpa [isOpenEnded, hsplit] using hclosed
  obtain ⟨name, hname, hcut⟩ := Option.bind_eq_some_iff.mp hending
  have hlast : (names path).getLast? = some file := by
    rw [names, hsplit, List.filter_append]
    simp [hnamed]
  have hfilter : (some file).filter (fun n => !(["/", ".", ".."].contains n)) = some name := by rwa [← hlast]
  obtain ⟨heq, hproper⟩ := Option.filter_eq_some_iff.mp hfilter
  obtain rfl := Option.some.inj heq
  have hbelow : file ≠ ".." := by
    rintro rfl
    exact absurd hproper (by decide)
  have hmem : file ∈ Text.split "/" path := by simp [hsplit]
  have hpair : cutName file = ((cutName file).1, some ending) := by rw [← hcut]
  have hfile := eq_of_cutName hpair
  refine ⟨before, (cutName file).1, by rw [hsplit, ← hfile], ?_, by rw [stem?, hname, Option.map_some]⟩
  rw [← hfile]
  exact ⟨⟨Text.free_of_mem_split hmem, hnamed⟩, hbelow, fun hc => hvalid (Text.subset_of_mem_split hmem hc)⟩

end Path

/-! ## Places -/

namespace Place

theorem follow_leaf {file : String} (h : Path.IsLeaf file) (place : Place) : place.follow file = place ++ [file] := by
  rw [follow, if_neg h.ne_root, if_neg h.ne_dot, if_neg h.below]

theorem not_isAbove_leaf {file : String} (h : Path.IsLeaf file) (place : Place) :
    isAbove (place ++ [file]) = false := by
  have hup : (file == "..") = false := beq_eq_false_iff_ne.mpr h.below
  have hne : place ++ [file] ≠ ["/"] := by
    intro heq
    cases place with
    | nil => exact h.ne_root (List.cons.inj heq).1
    | cons name place => simp at heq
  simp [isAbove, hne, hup]

end Place

/-! ## Walking -/

namespace Files

variable {f g : Files} {directory file : String} {place : Place}

theorem walk?_append (place : Place) (names more : List String) :
    f.walk? place (names ++ more) = (f.walk? place names).bind fun p => f.walk? p more := by
  induction names generalizing place with
  | nil => rfl
  | cons name names ih =>
    rw [List.cons_append, walk?, walk?]
    split
    · exact ih _
    · rfl

theorem isDirectoryAt_congr (h : g.directories = f.directories) (place : Place) :
    g.isDirectoryAt place = f.isDirectoryAt place := by rw [isDirectoryAt, h, isDirectoryAt]

theorem walk?_congr (h : g.directories = f.directories) (place : Place) (names : List String) :
    g.walk? place names = f.walk? place names := by
  induction names generalizing place with
  | nil => rfl
  | cons name names ih => rw [walk?, walk?, isDirectoryAt_congr h, ih]

/-- A way that leads to a directory goes through directories. -/
theorem isDirectoryAt_of_walk? {start : Place} {names : List String} (hw : f.walk? start names = some place)
    (hd : f.isDirectoryAt place = true) : f.isDirectoryAt start = true := by
  cases names with
  | nil => rwa [Option.some.inj hw]
  | cons name names =>
    rw [walk?] at hw
    split at hw
    · assumption
    · cases hw

/-- Nothing is made where the way is there. -/
theorem makeWay?_of_walk? {start : Place} {names : List String} (hw : f.walk? start names = some place)
    (hd : f.isDirectoryAt place = true) : f.makeWay? start names = some f := by
  induction names generalizing start with
  | nil => rfl
  | cons name names ih =>
    have hstart := isDirectoryAt_of_walk? hw hd
    rw [walk?, if_pos hstart] at hw
    have hnext := isDirectoryAt_of_walk? hw hd
    rw [makeWay?]
    simp only [hnext, if_true]
    exact ih hw

/-! ## Putting texts -/

@[simp] theorem directories_put (place : Place) (text : String) : (f.put place text).directories = f.directories := rfl

theorem textAt?_put_self (place : Place) (text : String) : (f.put place text).textAt? place = some text := by
  simp [textAt?, put]

theorem lookup_filter_of_ne {place other : Place} (h : other ≠ place) (texts : List (Place × String)) :
    (texts.filter (·.1 != place)).lookup other = texts.lookup other := by
  induction texts with
  | nil => rfl
  | cons p texts ih =>
    rw [List.filter_cons, List.lookup_cons]
    by_cases hp : p.1 = place
    · have hother : (other == p.1) = false := beq_eq_false_iff_ne.mpr (hp ▸ h)
      rw [if_neg (by simp [hp]), hother, ih]
    · have hkeep : (p.1 != place) = true := bne_iff_ne.mpr hp
      rw [if_pos hkeep, List.lookup_cons, ih]

theorem textAt?_put_of_ne {place other : Place} (h : other ≠ place) (text : String) :
    (f.put place text).textAt? other = f.textAt? other := by
  rw [textAt?, put, List.lookup_cons, beq_eq_false_iff_ne.mpr h]
  exact lookup_filter_of_ne h f.texts

/-! ## Where a directory stands -/

/-- A path leads to a directory. -/
structure HasDirectory (f : Files) (directory : String) (place : Place) : Prop where
  valid : Char.ofNat 0 ∉ directory.toList
  walk : f.walk? [] (Path.names directory) = some place
  isDirectory : f.isDirectoryAt place = true

theorem isDirectoryAt_leaf (hfile : Path.IsLeaf file) :
    f.isDirectoryAt (place ++ [file]) = f.directories.contains (place ++ [file]) := by
  rw [isDirectoryAt, Place.not_isAbove_leaf hfile, Bool.false_or]

section
variable (h : f.HasDirectory directory place)
include h

theorem HasDirectory.congr (hd : g.directories = f.directories) : g.HasDirectory directory place :=
  ⟨h.valid, by rw [walk?_congr hd, h.walk], by rw [isDirectoryAt_congr hd, h.isDirectory]⟩

theorem HasDirectory.makeDirectory? : f.makeDirectory? directory = some f := by
  have hvalid : directory.toList.contains (Char.ofNat 0) = false := by simpa using h.valid
  rw [Files.makeDirectory?, hvalid]
  exact makeWay?_of_walk? h.walk h.isDirectory

/-- A file name leads from the directory to the place below of that name. -/
theorem HasDirectory.place?_join (hfile : Path.IsLeaf file) :
    f.place? (Path.join directory file) = some (place ++ [file]) := by
  have hnames : Path.names (Path.join directory file) = Path.names directory ++ [file] := hfile.names_join directory
  have hempty : Path.join directory file ≠ "" := by
    intro heq
    rw [heq] at hnames
    have hnone : Path.names "" = [] := by decide
    rw [hnone] at hnames
    simp at hnames
  have hvalid : Char.ofNat 0 ∉ (Path.join directory file).toList := by
    intro hc
    rcases Path.mem_join hc with hc | hc | hc
    · exact h.valid hc
    · cases hc
    · exact hfile.valid hc
  have hwalk : f.walk? [] (Path.names (Path.join directory file)) = some (place ++ [file]) := by
    rw [hnames, walk?_append, h.walk, Option.bind_some, walk?, if_pos h.isDirectory, walk?, Place.follow_leaf hfile]
  have hclosed : Path.isOpenEnded (Path.join directory file) = false := hfile.not_isOpenEnded directory
  have hcondition : (Path.join directory file = "" || (Path.join directory file).toList.contains (Char.ofNat 0)) =
      false := by
    simpa using ⟨hempty, hvalid⟩
  rw [place?, hcondition, hwalk]
  simp [hclosed]

theorem HasDirectory.text?_join (hfile : Path.IsLeaf file) :
    f.text? (Path.join directory file) = f.textAt? (place ++ [file]) := by
  rw [text?, h.place?_join hfile, Option.bind_some]

theorem HasDirectory.contains_join (hfile : Path.IsLeaf file) : f.contains (Path.join directory file) =
    ((f.textAt? (place ++ [file])).isSome || f.directories.contains (place ++ [file])) := by
  rw [Files.contains, h.place?_join hfile, Option.any_some, existsAt, isDirectoryAt_leaf hfile]

/-- A file is written where no directory has its name. -/
theorem HasDirectory.write?_join (hfile : Path.IsLeaf file) (hd : place ++ [file] ∉ f.directories) (text : String) :
    f.write? (Path.join directory file) text = some (f.put (place ++ [file]) text) := by
  have hfree : f.isDirectoryAt (place ++ [file]) = false := by
    simpa [isDirectoryAt_leaf hfile] using hd
  simp only [write?, h.place?_join hfile, hfree, Bool.false_eq_true, if_false]

end

/-- Nothing stands at a path that cannot be one. -/
theorem not_contains {path : String} (hinvalid : Char.ofNat 0 ∈ path.toList) : f.contains path = false := by
  have hcondition : (path = "" || path.toList.contains (Char.ofNat 0)) = true := by simp [hinvalid]
  have hplace : f.place? path = none := by rw [place?, hcondition, if_pos rfl]
  rw [contains, hplace, Option.any_none]

/-- Where a path leads to a place, its directory stands above it. -/
theorem hasDirectory_of_place? {path : String} {before : List String} (hplace : f.place? path = some place)
    (hsplit : Text.split "/" path = before ++ [file]) (hfile : Path.IsLeaf file) :
    ∃ above, f.HasDirectory (Path.directory path) above ∧ place = above ++ [file] := by
  unfold place? at hplace
  split at hplace
  · cases hplace
  · rename_i hcondition
    have hvalid : Char.ofNat 0 ∉ path.toList := by
      simp only [Bool.or_eq_true, not_or, List.contains_iff_mem] at hcondition
      exact hcondition.2
    obtain ⟨hwalk, -⟩ := Option.filter_eq_some_iff.mp hplace
    have hdirectory : Char.ofNat 0 ∉ (Path.directory path).toList := by
      intro hc
      rcases Path.mem_directory hsplit hfile.named hc with hc | hc | hc
      · exact hvalid hc
      · cases hc
      · cases hc
    rcases Path.names_directory hsplit hfile.named with hnames | ⟨hdot, hnames⟩
    · rw [hnames, walk?_append] at hwalk
      obtain ⟨above, habove, hlast⟩ := Option.bind_eq_some_iff.mp hwalk
      rw [walk?] at hlast
      split at hlast
      · rename_i hd
        rw [walk?, Place.follow_leaf hfile] at hlast
        exact ⟨above, ⟨hdirectory, habove, hd⟩, (Option.some.inj hlast).symm⟩
      · cases hlast
    · rw [hnames, walk?, if_pos (show f.isDirectoryAt [] = true from rfl), walk?, Place.follow_leaf hfile] at hwalk
      refine ⟨[], ⟨hdirectory, ?_, rfl⟩, (Option.some.inj hwalk).symm⟩
      rw [hdot]
      rfl

/-! ## Reading records -/

theorem record_json {α : Type} [Record α] {path text : String} {a : α} (htext : f.text? path = some text)
    (hyaml : isYaml path = false) (hread : ((Json.parse? text).map Document.ofJson).bind Record.decode? = some a) :
    f.record α path = .ok a := by
  unfold record
  simp only [read, htext, hyaml, bind, Except.bind, Bool.false_eq_true, if_false, hread]

end Files

end FieldBridge
