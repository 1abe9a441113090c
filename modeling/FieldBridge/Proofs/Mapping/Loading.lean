import FieldBridge.Proofs.Mapping.Store

/-!
# Loading the configuration that a path names

A path with one of the known endings is taken apart into a directory and a stem, and
the stem is looked up in the store of that directory. So the file that is loaded is the
first one of its siblings with a known ending, JSON before YAML, and the named file
only where no sibling comes before it.
-/

namespace FieldBridge

open Record Document MappingStore

/-! ## Loading a named file -/

/-- A file beside the one at a path, of the same stem. -/
def MappingStore.sibling (path ending : String) : String :=
  (MappingStore.mk (Path.directory path)).path ((Path.stem? path).getD "") ending

theorem loadMapping_of_load {f : Files} {path id : String} {store : MappingStore} {c : MappingConfiguration}
    (hstore : MappingStore.ofFile? path = some (store, id)) (hload : store.load f id = .ok (some c)) :
    loadMapping f path = .ok c := by
  simp only [loadMapping, hstore, hload]

/-- The first of some things that pass a test, where one of them is known to. -/
theorem find?_map_of_mem {α β : Type} [DecidableEq α] {g : α → β} {p : β → Bool} {a : α} {l : List α} (ha : a ∈ l)
    (hp : p (g a) = true) :
    (l.map g).find? p = some ((((l.takeWhile (· != a)).map g).find? p).getD (g a)) := by
  induction l with
  | nil => cases ha
  | cons b l ih =>
    by_cases hb : b = a
    · subst hb
      simp [hp]
    · have hmem : a ∈ l := (List.mem_cons.mp ha).resolve_left (Ne.symm hb)
      have hne : (b != a) = true := bne_iff_ne.mpr hb
      rw [List.takeWhile_cons_of_pos (p := (· != a)) hne, List.map_cons, List.map_cons, List.find?_cons,
        List.find?_cons, ih hmem]
      cases p (g b) <;> rfl

/-- **A named file is loaded unless a sibling with an earlier ending is there.** JSON comes before
YAML, whichever of them was named. -/
theorem loadMapping_of_file (f : Files) (path ending : String) (hfile : (f.text? path).isSome)
    (hclosed : f.isDirectory path = false) (hending : Path.extension? path = some ending)
    (hknown : ending ∈ ["json", "yaml", "yml"]) :
    f.place? (sibling path ending) = f.place? path ∧
      loadMapping f path = (f.record MappingConfiguration
        ((((["json", "yaml", "yml"].takeWhile (· != ending)).map (sibling path)).find? f.contains).getD
          (sibling path ending))).mapError (.unreadable path) := by
  obtain ⟨text, htext⟩ := Option.isSome_iff_exists.mp hfile
  obtain ⟨place, hplace, hat⟩ := Option.bind_eq_some_iff.mp htext
  have hopen : Path.isOpenEnded path = false ∧ Char.ofNat 0 ∉ path.toList := by
    rw [Files.isDirectory, hplace, Option.any_some] at hclosed
    unfold Files.place? at hplace
    split at hplace
    · cases hplace
    · rename_i hcondition
      simp only [Bool.or_eq_true, not_or, List.contains_iff_mem] at hcondition
      obtain ⟨-, hends⟩ := Option.filter_eq_some_iff.mp hplace
      exact ⟨by simpa [hclosed] using hends, hcondition.2⟩
  obtain ⟨before, stem, hsplit, hleaf, hstem⟩ := Path.exists_name hopen.1 hopen.2 hending
  obtain ⟨above, hdirectory, rfl⟩ := Files.hasDirectory_of_place? hplace hsplit hleaf
  have hsibling : ∀ e, sibling path e = (MappingStore.mk (Path.directory path)).path stem e := fun e => by
    rw [sibling, hstem, Option.getD_some]
  have hnamed : f.place? (sibling path ending) = some (above ++ [stem ++ "." ++ ending]) := by
    rw [hsibling, MappingStore.path, hdirectory.place?_join hleaf]
  have hthere : f.contains (sibling path ending) = true := by
    rw [Files.contains, hnamed, Option.any_some, Files.existsAt, hat]
    rfl
  have hcandidates : (MappingStore.mk (Path.directory path)).candidates stem =
      ["json", "yaml", "yml"].map (sibling path) :=
    List.map_congr_left fun e _ => (hsibling e).symm
  have hfirst := find?_map_of_mem hknown hthere
  have hstore : MappingStore.ofFile? path = some (⟨Path.directory path⟩, stem) := by
    rw [MappingStore.ofFile?, hstem, Option.map_some]
  refine ⟨hnamed.trans hplace.symm, ?_⟩
  rw [← hcandidates] at hfirst
  simp only [loadMapping, hstore, load_of_found hfirst]
  cases f.record MappingConfiguration _ <;> rfl

/-! ## A file that is passed over -/

/-- A directory with two files of one stem, the JSON file holding a stored configuration. -/
def MappingStore.crowded : Files where
  texts := [(["maps", "a.json"], (encode sample).pretty),
    (["maps", "a.yaml"], "id: named\nname: N\nsourceDatabaseId: d\n" ++
      "createdAt: 2024-01-01T00:00:00Z\nupdatedAt: 2024-01-01T00:00:00Z\n")]
  directories := [["maps"]]

theorem record_crowded : crowded.record MappingConfiguration "maps/a.json" = .ok sample := by
  have hplace : crowded.place? "maps/a.json" = some ["maps", "a.json"] := by decide
  have htext : crowded.text? "maps/a.json" = some (encode sample).pretty := by
    rw [Files.text?, hplace]
    rfl
  exact Files.record_json htext (by decide) storable_sample.decode?_pretty

theorem loadMapping_of_file_crowded : (crowded.text? "maps/a.json").isSome ∧
    crowded.isDirectory "maps/a.json" = false ∧ Path.extension? "maps/a.json" = some "json" ∧
      loadMapping crowded "maps/a.json" = .ok sample := by
  have hfile : (crowded.text? "maps/a.json").isSome := by decide
  have hclosed : crowded.isDirectory "maps/a.json" = false := by decide
  have hending : Path.extension? "maps/a.json" = some "json" := by decide
  refine ⟨hfile, hclosed, hending, ?_⟩
  rw [(loadMapping_of_file crowded "maps/a.json" "json" hfile hclosed hending (by decide)).2]
  show (crowded.record MappingConfiguration (sibling "maps/a.json" "json")).mapError _ = _
  rw [show sibling "maps/a.json" "json" = "maps/a.json" by decide, record_crowded]
  rfl

/-- It is not so that the named file is always the one that is loaded. -/
theorem not_loads_named : ¬∀ (f : Files) (path ending : String), (f.text? path).isSome →
    f.isDirectory path = false → Path.extension? path = some ending → ending ∈ ["json", "yaml", "yml"] →
      (loadMapping f path).toOption = (f.record MappingConfiguration path).toOption := by
  intro hclaim
  have hnamed : (crowded.record MappingConfiguration "maps/a.yaml").toOption.map (·.id) = some "named" := by
    decide +kernel
  have hstore : MappingStore.ofFile? "maps/a.yaml" = some (⟨"maps"⟩, "a") := by decide
  have hfirst : ((MappingStore.mk "maps").candidates "a").find? crowded.contains = some "maps/a.json" := by decide
  have hread : (MappingStore.mk "maps").load crowded "a" = .ok (some sample) := by
    rw [load_of_found hfirst, record_crowded]
    rfl
  have hload : loadMapping crowded "maps/a.yaml" = .ok sample := loadMapping_of_load hstore hread
  have hsame := hclaim crowded "maps/a.yaml" "yaml" (by decide) (by decide) (by decide) (by decide)
  rw [hload] at hsame
  rw [← hsame] at hnamed
  exact absurd hnamed (by decide)

end FieldBridge
