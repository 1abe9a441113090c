import FieldBridge.Proofs.Text.Split
import FieldBridge.Storage.Path
import Mathlib.Data.List.TakeWhile

/-!
# Paths and their names

A path is the join of its pieces, and pieces without slashes are those of their join.
What a path starts from depends on its first piece alone, once there is a second one.
So putting a file name behind a directory adds one name at the end, and the directory
of a path has the names of the path but the last one.
-/

namespace FieldBridge

namespace Text

/-! ## Pieces between slashes -/

theorem split_slash (s : String) : split "/" s = (s.toList.splitOn '/').map String.ofList :=
  congrArg (List.map String.ofList) (pieces_singleton '/' s.toList)

theorem split_ne_nil (s : String) : split "/" s ≠ [] := by
  rw [split_slash, ne_eq, List.map_eq_nil_iff]
  exact List.splitOn_ne_nil _ _

theorem join_split (s : String) : join "/" (split "/" s) = s := by
  rw [← String.toList_inj, join, String.toList_intercalate, split_slash, List.map_map]
  have hid : String.toList ∘ String.ofList = id := funext fun cs => String.toList_ofList
  rw [hid, List.map_id]
  exact List.intercalate_splitOn '/'

theorem split_join {parts : List String} (hne : parts ≠ []) (hfree : ∀ p ∈ parts, '/' ∉ p.toList) :
    split "/" (join "/" parts) = parts := by
  have hsplit : (['/'].intercalate (parts.map String.toList)).splitOn '/' = parts.map String.toList := by
    refine List.splitOn_intercalate '/' (fun l hl => ?_) (by simpa using hne)
    obtain ⟨p, hp, rfl⟩ := List.mem_map.mp hl
    exact hfree p hp
  have hid : String.ofList ∘ String.toList = id := funext fun s => String.ofList_toList
  rw [split_slash, join, String.toList_intercalate]
  show ((['/'].intercalate (parts.map String.toList)).splitOn '/').map String.ofList = parts
  rw [hsplit, List.map_map, hid, List.map_id]

theorem splitOn_spec (cs : List Char) : ∀ p ∈ cs.splitOn '/', '/' ∉ p ∧ p ⊆ cs := by
  induction cs with
  | nil => simp
  | cons c cs ih =>
    have hmore : ∀ p ∈ cs.splitOn '/', '/' ∉ p ∧ p ⊆ c :: cs := fun p hp =>
      ⟨(ih p hp).1, fun _ hd => List.mem_cons_of_mem _ ((ih p hp).2 hd)⟩
    rw [List.splitOn_cons_eq_if_modifyHead]
    split
    · intro p hp
      rcases List.mem_cons.mp hp with rfl | hp
      · simp
      · exact hmore p hp
    · rename_i hc
      cases hsplit : cs.splitOn '/' with
      | nil => simp
      | cons first rest =>
        rw [hsplit] at hmore
        intro p hp
        rcases List.mem_cons.mp hp with rfl | hp
        · obtain ⟨hfree, hsub⟩ := hmore first List.mem_cons_self
          refine ⟨fun hmem => ?_, List.cons_subset.mpr ⟨List.mem_cons_self, hsub⟩⟩
          rcases List.mem_cons.mp hmem with heq | hmem
          · exact hc (beq_iff_eq.mpr heq.symm)
          · exact hfree hmem
        · exact hmore p (List.mem_cons_of_mem _ hp)

theorem free_of_mem_split {s p : String} (hp : p ∈ split "/" s) : '/' ∉ p.toList := by
  rw [split_slash] at hp
  obtain ⟨cs, hcs, rfl⟩ := List.mem_map.mp hp
  simpa using (splitOn_spec _ cs hcs).1

theorem subset_of_mem_split {s p : String} (hp : p ∈ split "/" s) : p.toList ⊆ s.toList := by
  rw [split_slash] at hp
  obtain ⟨cs, hcs, rfl⟩ := List.mem_map.mp hp
  simpa using (splitOn_spec _ cs hcs).2

theorem join_snoc {parts : List String} (hne : parts ≠ []) (p : String) :
    join "/" (parts ++ [p]) = join "/" parts ++ "/" ++ p := by
  rw [join, String.intercalate_append_of_ne_nil hne (by simp)]
  simp [join]

end Text

namespace Path

/-! ## The names of joined pieces -/

/-- What pieces start from. -/
def originOf : List String → List String
  | first :: _ :: _ => if first = "" then ["/"] else if first = "." then ["."] else []
  | [only] => if only = "." then ["."] else []
  | [] => []

def namesOf (parts : List String) : List String := originOf parts ++ parts.filter (!isIdle ·)

theorem isAbsolute_join {parts : List String} (hfree : ∀ p ∈ parts, '/' ∉ p.toList) :
    isAbsolute (Text.join "/" parts) = true ↔ ∃ second rest, parts = "" :: second :: rest := by
  have hhead : ∀ p : String, '/' ∉ p.toList → p.toList.head? ≠ some '/' := fun p hp h =>
    hp (List.mem_of_head? h)
  cases parts with
  | nil => simp [isAbsolute, Text.join]
  | cons first parts =>
    have hfirst := hfree first List.mem_cons_self
    cases parts with
    | nil => simpa [isAbsolute, Text.join] using hhead first hfirst
    | cons second rest =>
      simp only [isAbsolute, Text.join, String.intercalate_cons_cons, String.toList_append, List.cons.injEq]
      cases hcs : first.toList with
      | nil =>
        have hempty : first = "" := String.toList_eq_nil_iff.mp hcs
        simp [hempty]
      | cons c cs =>
        have hc : c ≠ '/' := fun h => hfirst (by simp [hcs, h])
        have hne : first ≠ "" := fun h => by simp [h] at hcs
        simp [hc, hne]

theorem names_eq (path : String) : names path = namesOf (Text.split "/" path) := by
  have habs := isAbsolute_join fun p hp => Text.free_of_mem_split (s := path) hp
  rw [Text.join_split] at habs
  rw [names, namesOf]
  congr 1
  unfold origin
  split
  · rename_i h
    obtain ⟨second, rest, hparts⟩ := habs.mp h
    simp [hparts, originOf]
  · rename_i h
    cases hparts : Text.split "/" path with
    | nil => exact absurd hparts (Text.split_ne_nil path)
    | cons first parts =>
      have hfirst : ∀ second rest, parts = second :: rest → first ≠ "" := fun second rest hp he =>
        h (habs.mpr ⟨second, rest, by rw [hparts, hp, he]⟩)
      cases parts with
      | nil => by_cases hdot : first = "." <;> simp [originOf, hdot]
      | cons second rest => by_cases hdot : first = "." <;> simp [originOf, hdot, hfirst second rest rfl]

theorem names_join {parts : List String} (hne : parts ≠ []) (hfree : ∀ p ∈ parts, '/' ∉ p.toList) :
    names (Text.join "/" parts) = namesOf parts := by
  rw [names_eq, Text.split_join hne hfree]

/-- A name that a file can have in a directory. -/
structure IsName (file : String) : Prop where
  free : '/' ∉ file.toList
  named : isIdle file = false

theorem originOf_snoc {parts : List String} (hne : parts ≠ []) (hempty : parts ≠ [""]) (file : String) :
    originOf (parts ++ [file]) = originOf parts := by
  cases parts with
  | nil => exact absurd rfl hne
  | cons first parts =>
    cases parts with
    | nil =>
      have hfirst : first ≠ "" := fun h => hempty (by rw [h])
      simp [originOf, hfirst]
    | cons second rest => rfl

theorem originOf_last {parts : List String} (hne : parts ≠ []) (a b : String) :
    originOf (parts ++ [a]) = originOf (parts ++ [b]) := by
  cases parts with
  | nil => exact absurd rfl hne
  | cons first parts => cases parts <;> rfl

theorem namesOf_snoc {parts : List String} {file : String} (hfile : IsName file) :
    namesOf (parts ++ [file]) = originOf (parts ++ [file]) ++ parts.filter (!isIdle ·) ++ [file] := by
  simp [namesOf, hfile.named]

/-! ## Paths inside a directory -/

section
variable {file : String} (hfile : IsName file)
include hfile

theorem IsName.not_isAbsolute : isAbsolute file = false := by
  cases h : isAbsolute file with
  | false => rfl
  | true => exact absurd (List.mem_of_head? (beq_iff_eq.mp h)) hfile.free

/-- The pieces of a path inside a directory: those of the directory, but for an empty last one, and
the name. -/
theorem IsName.join_eq (directory : String) : ∃ parts : List String,
    join directory file = Text.join "/" (parts ++ [file]) ∧ (∀ p ∈ parts, '/' ∉ p.toList) ∧
      names directory ++ [file] = namesOf (parts ++ [file]) := by
  have habs := hfile.not_isAbsolute
  have hparts : ∀ p ∈ Text.split "/" directory, '/' ∉ p.toList := fun p hp => Text.free_of_mem_split hp
  unfold join
  by_cases hempty : directory = ""
  · subst hempty
    refine ⟨[], by simp [Text.join], by simp, ?_⟩
    have hname : file ≠ "." := by
      rintro rfl
      exact absurd hfile.named (by decide)
    have horigin : originOf [file] = [] := by simp [originOf, hname]
    rw [namesOf_snoc hfile, List.nil_append, horigin]
    rfl
  · rw [if_neg (by simp [habs, hempty])]
    split
    · rename_i hlast
      -- the last piece of the directory is empty
      obtain ⟨parts, hsplit⟩ : ∃ parts, Text.split "/" directory = parts ++ [""] := by
        obtain ⟨cs, hcs⟩ := List.getLast?_eq_some_iff.mp (beq_iff_eq.mp hlast)
        exact ⟨_, by rw [Text.split_slash, hcs, List.splitOn_append_cons_self, List.map_append]; rfl⟩
      have hne : parts ≠ [] := by
        rintro rfl
        have hjoin := Text.join_split directory
        rw [hsplit] at hjoin
        exact hempty hjoin.symm
      refine ⟨parts, ?_, fun p hp => hparts p (by rw [hsplit]; exact List.mem_append_left _ hp), ?_⟩
      · have hjoin := Text.join_split directory
        rw [hsplit, Text.join_snoc hne] at hjoin
        rw [Text.join_snoc hne, ← hjoin, String.append_empty]
      · rw [names_eq, hsplit, namesOf_snoc hfile, originOf_last hne file "", namesOf, List.filter_append]
        simp [isIdle]
    · have hne := Text.split_ne_nil directory
      have hsingle : Text.split "/" directory ≠ [""] := by
        intro hsplit
        have hjoin := Text.join_split directory
        rw [hsplit] at hjoin
        exact hempty hjoin.symm
      refine ⟨Text.split "/" directory, ?_, hparts, ?_⟩
      · rw [Text.join_snoc hne, Text.join_split]
      · rw [names_eq, namesOf_snoc hfile, originOf_snoc hne hsingle, namesOf]

theorem IsName.split_join (directory : String) : ∃ parts : List String,
    Text.split "/" (join directory file) = parts ++ [file] ∧ names directory ++ [file] = namesOf (parts ++ [file]) := by
  obtain ⟨parts, hjoin, hparts, hnames⟩ := hfile.join_eq directory
  refine ⟨parts, ?_, hnames⟩
  rw [hjoin, Text.split_join (by simp)]
  intro p hp
  rcases List.mem_append.mp hp with hp | hp
  · exact hparts p hp
  · exact List.mem_singleton.mp hp ▸ hfile.free

/-- A path inside a directory has one name more than the directory. -/
theorem IsName.names_join (directory : String) : names (join directory file) = names directory ++ [file] := by
  obtain ⟨parts, hsplit, hnames⟩ := hfile.split_join directory
  rw [names_eq, hsplit, hnames]

theorem IsName.not_isOpenEnded (directory : String) : isOpenEnded (join directory file) = false := by
  obtain ⟨parts, hsplit, -⟩ := hfile.split_join directory
  simp [isOpenEnded, hsplit, hfile.named]

omit hfile in
theorem mem_join {directory : String} {c : Char} (hc : c ∈ (join directory file).toList) :
    c ∈ directory.toList ∨ c = '/' ∨ c ∈ file.toList := by
  unfold join at hc
  split_ifs at hc
  · exact .inr (.inr hc)
  · rw [String.toList_append, List.mem_append] at hc
    exact hc.imp_right .inr
  · simpa [or_assoc] using hc

omit hfile in
theorem mem_join_right {directory : String} {c : Char} (hc : c ∈ file.toList) : c ∈ (join directory file).toList := by
  unfold join
  split_ifs <;> simp [hc]

end

/-! ## The directory of a path -/

section
variable {path file : String} {before : List String}

/-- The pieces before the last one, without those that name nothing at their end. -/
def named (before : List String) : List String := (before.reverse.dropWhile isIdle).reverse

theorem named_append (before : List String) : ∃ idle, before = named before ++ idle ∧ ∀ p ∈ idle, isIdle p = true := by
  refine ⟨(before.reverse.takeWhile isIdle).reverse, ?_, fun p hp => ?_⟩
  · rw [named, ← List.reverse_append, List.takeWhile_append_dropWhile, List.reverse_reverse]
  · exact List.mem_takeWhile_imp (List.mem_reverse.mp hp)

theorem parent_eq (hsplit : Text.split "/" path = before ++ [file]) (hfile : isIdle file = false) :
    parent path = if (named before).isEmpty then
      (if (names path).length < 2 then "" else String.join (origin path)) else Text.join "/" (named before) := by
  have hdrop : ((before ++ [file]).reverse.dropWhile isIdle).drop 1 = before.reverse := by
    simp [hfile]
  unfold parent
  rw [hsplit, hdrop, named, List.isEmpty_reverse]

theorem filter_named (before : List String) :
    (named before).filter (!isIdle ·) = before.filter (!isIdle ·) := by
  obtain ⟨idle, hbefore, hidle⟩ := named_append before
  have hnone : idle.filter (!isIdle ·) = [] := List.filter_eq_nil_iff.mpr fun p hp => by simp [hidle p hp]
  conv =>
    rhs
    rw [hbefore, List.filter_append, hnone, List.append_nil]

theorem named_last (before : List String) {p : String} (hp : (named before).getLast? = some p) : isIdle p = false := by
  rw [named, List.getLast?_reverse] at hp
  have hstop := List.head?_dropWhile_not isIdle before.reverse
  rw [hp] at hstop
  simpa using hstop

theorem originOf_named (hne : named before ≠ []) (file : String) :
    originOf (before ++ [file]) = originOf (named before) := by
  obtain ⟨idle, hbefore, -⟩ := named_append before
  cases hnamed : named before with
  | nil => exact absurd hnamed hne
  | cons first rest =>
    rw [hbefore, hnamed]
    cases rest with
    | cons second rest => rfl
    | nil =>
      have hfirst : isIdle first = false := named_last before (by rw [hnamed]; rfl)
      have hidle : first ≠ "" ∧ first ≠ "." := by simpa [isIdle] using hfirst
      cases idle <;> simp [originOf, hidle]

theorem originOf_cases (parts : List String) :
    originOf parts = [] ∨ originOf parts = ["/"] ∨ originOf parts = ["."] := by
  unfold originOf
  split
  · split_ifs <;> simp
  · split_ifs <;> simp
  · simp

section
variable (hsplit : Text.split "/" path = before ++ [file]) (hfile : isIdle file = false)
include hsplit hfile

theorem names_snoc : names path = origin path ++ (named before).filter (!isIdle ·) ++ [file] := by
  rw [names, hsplit, List.filter_append, filter_named, List.append_assoc]
  simp [hfile]

omit hfile in
theorem origin_eq : origin path = originOf (before ++ [file]) := by
  have hnames := names_eq path
  rw [names, hsplit, namesOf] at hnames
  exact List.append_cancel_right hnames

/-- The directory of a path that has no name before its last one. -/
theorem directory_of_unnamed (hnamed : named before = []) :
    origin path = [] ∧ directory path = "." ∨
      (directory path = "/" ∨ directory path = ".") ∧ names (directory path) = origin path := by
  have hnames := names_snoc hsplit hfile
  have hparent := parent_eq hsplit hfile
  simp only [hnamed, List.filter_nil, List.append_nil] at hnames
  simp only [hnamed, List.isEmpty_nil, if_true, hnames] at hparent
  rcases originOf_cases (before ++ [file]) with ho | ho | ho
  all_goals rw [← origin_eq hsplit] at ho; rw [ho] at hparent
  · exact .inl ⟨ho, by simp [directory, hparent]⟩
  · have hdirectory : directory path = "/" := by simp [directory, hparent]
    exact .inr ⟨.inl hdirectory, by rw [hdirectory, ho]; rfl⟩
  · have hdirectory : directory path = "." := by simp [directory, hparent]
    exact .inr ⟨.inr hdirectory, by rw [hdirectory, ho]; rfl⟩

theorem directory_of_named (hnamed : named before ≠ []) :
    directory path = Text.join "/" (named before) ∧ ∀ p ∈ named before, '/' ∉ p.toList := by
  have hfree : ∀ p ∈ named before, '/' ∉ p.toList := by
    intro p hp
    obtain ⟨idle, hbefore, -⟩ := named_append before
    refine Text.free_of_mem_split (s := path) ?_
    rw [hsplit, hbefore]
    simp [hp]
  have hempty : Text.join "/" (named before) ≠ "" := by
    intro hjoin
    have hsplit := Text.split_join hnamed hfree
    rw [hjoin] at hsplit
    have hlast : isIdle "" = false := named_last before (by rw [← hsplit]; rfl)
    exact absurd hlast (by decide)
  have hparent := parent_eq hsplit hfile
  exact ⟨by simp [directory, hparent, hnamed, hempty], hfree⟩

/-- A path has the names of its directory and one more, but that the directory of a mere name is
written as a dot. -/
theorem names_directory :
    names path = names (directory path) ++ [file] ∨ directory path = "." ∧ names path = [file] := by
  have hnames := names_snoc hsplit hfile
  by_cases hnamed : named before = []
  · rw [hnamed, List.filter_nil, List.append_nil] at hnames
    rcases directory_of_unnamed hsplit hfile hnamed with ⟨ho, hdirectory⟩ | ⟨-, ho⟩
    · exact .inr ⟨hdirectory, by rw [hnames, ho, List.nil_append]⟩
    · exact .inl (by rw [hnames, ho])
  · obtain ⟨hdirectory, hfree⟩ := directory_of_named hsplit hfile hnamed
    left
    rw [hnames, hdirectory, Path.names_join hnamed hfree, namesOf, origin_eq hsplit, originOf_named hnamed]

theorem mem_directory {c : Char} (hc : c ∈ (directory path).toList) : c ∈ path.toList ∨ c = '/' ∨ c = '.' := by
  by_cases hnamed : named before = []
  · have hshort : directory path = "/" ∨ directory path = "." := by
      rcases directory_of_unnamed hsplit hfile hnamed with ⟨-, hd⟩ | ⟨hd, -⟩
      · exact .inr hd
      · exact hd
    rcases hshort with hd | hd
    · rw [hd] at hc
      exact .inr (.inl (List.mem_singleton.mp hc))
    · rw [hd] at hc
      exact .inr (.inr (List.mem_singleton.mp hc))
  · left
    obtain ⟨hdirectory, -⟩ := directory_of_named hsplit hfile hnamed
    obtain ⟨idle, hbefore, -⟩ := named_append before
    have hpath : path = Text.join "/" (named before) ++ "/" ++ Text.join "/" (idle ++ [file]) := by
      have hjoin := Text.join_split path
      rw [hsplit, hbefore, List.append_assoc, Text.join,
        String.intercalate_append_of_ne_nil hnamed (by simp)] at hjoin
      exact hjoin.symm
    rw [hpath, ← hdirectory]
    simp [hc]

end

end

/-! ## Endings -/

theorem eq_of_cutName {name stem ending : String} (h : cutName name = (stem, some ending)) :
    name = stem ++ "." ++ ending := by
  have hwhole := List.takeWhile_append_dropWhile (p := (· != '.')) (l := name.toList.reverse)
  unfold cutName at h
  dsimp only at h
  split at h
  · rename_i c rest hdrop
    simp only [Prod.mk.injEq, Option.some.injEq] at h
    rw [hdrop] at hwhole
    rw [← String.toList_inj, ← h.1, ← h.2]
    simpa using congrArg List.reverse hwhole.symm
  · cases h

theorem cutName_append {stem ending : String} (hs : stem ≠ "") (he : '.' ∉ ending.toList) :
    cutName (stem ++ "." ++ ending) = (stem, some ending) := by
  have hrev : (stem ++ "." ++ ending).toList.reverse = ending.toList.reverse ++ '.' :: stem.toList.reverse := by simp
  have hfree : ∀ c ∈ ending.toList.reverse, (c != '.') = true := fun c hc => by
    rw [bne_iff_ne]
    rintro rfl
    exact he (List.mem_reverse.mp hc)
  have htake : (ending.toList.reverse ++ '.' :: stem.toList.reverse).takeWhile (· != '.') = ending.toList.reverse := by
    rw [List.takeWhile_append_of_pos hfree, List.takeWhile_cons_of_neg (by decide), List.append_nil]
  have hdrop : (ending.toList.reverse ++ '.' :: stem.toList.reverse).dropWhile (· != '.') =
      '.' :: stem.toList.reverse := by
    rw [List.dropWhile_append_of_pos hfree, List.dropWhile_cons_of_neg (by decide)]
  unfold cutName
  dsimp only
  rw [hrev, htake]
  split
  · rename_i c rest heq
    obtain hrest : stem.toList.reverse = c :: rest := (List.cons.inj (hdrop.symm.trans heq)).2
    rw [← hrest, List.reverse_reverse, List.reverse_reverse, String.ofList_toList, String.ofList_toList]
  · rename_i hshort
    cases hstem : stem.toList.reverse with
    | nil => exact absurd (by simpa using hstem) hs
    | cons c rest => exact absurd (hdrop.trans (congrArg _ hstem)) (hshort c rest)

end Path

end FieldBridge
