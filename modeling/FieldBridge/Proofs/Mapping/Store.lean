import FieldBridge.Mapping.Store
import FieldBridge.Proofs.Cache.Key
import FieldBridge.Proofs.Document.Record
import FieldBridge.Proofs.Storage.Files

/-!
# The store is a map from ids to configurations

A configuration is restored from its JSON form, older names of its members being
absent there. A save writes one file of the directory, named by the id, and a file
with a JSON ending is looked for first, so after any saves the directory holds for each
id what was last saved under it, and YAML files of saved ids do not matter.
-/

namespace FieldBridge

open Record Document

/-! ## Configurations are restored -/

theorem restored_options {o : Options} (ho : o.IsNormal) : Restored o := by
  rintro v - hs
  have hnormal : v.normalize = .object o.entries := (Json.same_iff_normalize_eq.mp hs).trans ho
  cases hs with
  | @object members _ _ _ =>
    have htree : (Document.object (ofMembers members)).toJson? = some (.object members) :=
      toJson?_ofJson (.object members)
    show (Document.object (ofMembers members)).toJson?.map (fun v => Options.ofJson v.normalize) = some o
    rw [htree, Option.map_some, hnormal]
    rfl

theorem plain_of_isNormal {v : Json} (hv : v.IsNormal) : v.Plain := hv ▸ v.plain_normalize

namespace MappingRule

theorem restored {r : MappingRule} (ho : ∀ o ∈ r.options, o.IsNormal) : Restored r := by
  intro v hv hs
  have h : Form v _ := ⟨hv, hs⟩
  show (Document.slots? _ _ >>= _) = _
  rw [h.slots? (by simp [slotOf, lastSlot])]
  simp only [List.map_cons, List.map_nil, Option.bind_eq_bind, Option.bind_some,
    h.needed (s := slotOf ["destinationFieldId", "caseStudyFieldId"]) (by simp [-Option.or_some])
      (restored_string r.destination),
    h.needed (s := slotOf ["sourceFieldId", "notionFieldId"]) (by simp [-Option.or_some]) (restored_string r.source),
    h.ifAny (s := lastSlot "transformationId") (by simp [-Option.or_some]) fun s (_ : s ∈ r.conversion) =>
      ⟨restored_string s, nofun⟩,
    h.ifAny (s := lastSlot "transformationOptions") (by simp [-Option.or_some]) fun o (hm : o ∈ r.options) =>
      ⟨restored_options (ho o hm), nofun⟩]

theorem plain {r : MappingRule} (ho : ∀ o ∈ r.options, o.IsNormal) : (encode r).Plain := by
  refine .object ?_ ?_
  · cases r.conversion <;> cases r.options <;> simp [member, memberIf]
  · simp only [List.forall_mem_append, forall_mem_member, forall_mem_memberIf]
    exact ⟨⟨⟨.string _, .string _⟩, fun s _ => .string s⟩, fun o hm => plain_of_isNormal (ho o hm)⟩

end MappingRule

namespace MappingConfiguration

/-- The id can be that of a file, the fields have the forms and ranges of their types, and the JSON
form is one that the reader takes. -/
structure Storable (c : MappingConfiguration) : Prop where
  named : c.id ≠ ""
  free : '/' ∉ c.id.toList
  valid : Char.ofNat 0 ∉ c.id.toList
  options : ∀ r ∈ c.rules, ∀ o ∈ r.options, o.IsNormal
  galleryItems : ∀ n ∈ c.galleryItems, n < 0x100000000
  createdAt : c.createdAt.Dated
  updatedAt : c.updatedAt.Dated
  readable : Json.Readable Json.maxDepth (encode c)

section
variable {c : MappingConfiguration} (hc : c.Storable)
include hc

theorem Storable.plain : (encode c).Plain := by
  refine .object ?_ ?_
  · cases c.galleryItems <;> simp [member, memberIf]
  · simp only [List.forall_mem_append, forall_mem_member, forall_mem_memberIf]
    refine ⟨⟨⟨⟨⟨⟨⟨.string _, .string _⟩, .string _⟩, .array ?_⟩, ?_⟩, .bool _⟩, .string _⟩, .string _⟩
    · intro v hv
      obtain ⟨r, hr, rfl⟩ := List.mem_map.mp hv
      exact MappingRule.plain (hc.options r hr)
    · intro n hn
      obtain ⟨hrange, hencode⟩ := encode_nat (lt_trans (hc.galleryItems n hn) (by decide))
      rw [hencode]
      exact .number _

theorem Storable.restored : Restored c := by
  intro v hv hs
  have h : Form v _ := ⟨hv, hs⟩
  have hgallery : smallCount? (under v (lastSlot "galleryItemCount")) = some c.galleryItems := by
    have hread := h.ifAny (s := lastSlot "galleryItemCount") (o := c.galleryItems) (by simp [-Option.or_some])
      fun n hn => present_nat (lt_trans (hc.galleryItems n hn) (by decide))
    have hsmall : c.galleryItems.all (· < 0x100000000) = true := by
      cases hn : c.galleryItems with
      | none => rfl
      | some n => simpa using hc.galleryItems n hn
    simp only [smallCount?, hread, Option.bind_eq_bind, Option.bind_some, hsmall, if_true]
  show (Document.slots? _ _ >>= _) = _
  rw [h.slots? (by simp [slot, slotOf, lastSlot])]
  simp only [List.map_cons, List.map_nil, Option.bind_eq_bind, Option.bind_some, hgallery,
    h.needed (s := slot "id") (by simp [-Option.or_some]) (restored_string c.id),
    h.needed (s := slot "name") (by simp [-Option.or_some]) (restored_string c.name),
    h.needed (s := slotOf ["sourceDatabaseId", "notionDatabaseId"]) (by simp [-Option.or_some])
      (restored_string c.database),
    h.orElse (s := lastSlot "mappings") (by simp [-Option.or_some])
      (restored_list fun r hr => MappingRule.restored (hc.options r hr)),
    h.orElse (s := lastSlot "hasCompletedOnboarding") (by simp [-Option.or_some]) (restored_bool c.onboarded),
    h.needed (s := slot "createdAt") (by simp [-Option.or_some]) (restored_instant hc.createdAt),
    h.needed (s := slot "updatedAt") (by simp [-Option.or_some]) (restored_instant hc.updatedAt)]

/-- A configuration is decoded from the text that is saved for it. -/
theorem Storable.decode?_pretty :
    ((Json.parse? (encode c).pretty).map ofJson).bind decode? = some c := by
  rw [Json.parse?_pretty hc.readable, Option.map_some, Option.bind_some]
  exact hc.restored _ hc.plain (Json.same_iff_normalize_eq.mpr rfl)

end

end MappingConfiguration

/-! ## The store after some saves -/

namespace MappingStore

/-- Saves configurations one after another. -/
def saveAll? (s : MappingStore) (f : Files) : List MappingConfiguration → Option Files
  | [] => some f
  | c :: rest => (s.save? f c).bind fun g => s.saveAll? g rest

/-- A file put beside the saved ones under the name of an id. -/
structure Stray where
  id : String
  ending : String
  text : String

/-- Writes files into the directory of the store. -/
def writeAll? (s : MappingStore) (f : Files) : List Stray → Option Files
  | [] => some f
  | w :: rest => (f.write? (s.path w.id w.ending) w.text).bind fun g => s.writeAll? g rest

/-- The configuration that was last saved under an id. -/
def lastSaved (id : String) (cs : List MappingConfiguration) : Option MappingConfiguration :=
  cs.reverse.find? fun c => c.id == id

theorem lastSaved_snoc (id : String) (cs : List MappingConfiguration) (c : MappingConfiguration) :
    lastSaved id (cs ++ [c]) = if c.id = id then some c else lastSaved id cs := by
  rw [lastSaved, List.reverse_append, List.reverse_singleton, List.singleton_append, List.find?_cons]
  by_cases h : c.id = id
  · simp [h]
  · rw [beq_eq_false_iff_ne.mpr h, if_neg h, lastSaved]

theorem mem_of_lastSaved {id : String} {cs : List MappingConfiguration} {c : MappingConfiguration}
    (h : lastSaved id cs = some c) : c ∈ cs ∧ c.id = id :=
  ⟨List.mem_reverse.mp (List.mem_of_find?_eq_some h), by simpa using List.find?_some h⟩

theorem lastSaved_isSome {id : String} {cs : List MappingConfiguration} :
    (lastSaved id cs).isSome ↔ ∃ c ∈ cs, c.id = id := by
  simp [lastSaved]

/-- What stands in the directory of a store after some saves: for each id the text of what was last
saved under it, and no YAML file of another id. -/
structure Holds (s : MappingStore) (f : Files) (place : Place) (cs : List MappingConfiguration) : Prop where
  directory : f.HasDirectory s.directory place
  noDirectory : ∀ name, place ++ [name] ∉ f.directories
  saved : ∀ id, f.textAt? (place ++ [id ++ "." ++ "json"]) = (lastSaved id cs).map fun c => (encode c).pretty
  beside : ∀ id, lastSaved id cs = none → ∀ ending ∈ ["yaml", "yml"], f.textAt? (place ++ [id ++ "." ++ ending]) = none

section
variable {s : MappingStore} {f : Files} {place : Place} {cs : List MappingConfiguration}

theorem place_inj {id id' ending ending' : String} (he : '.' ∉ ending.toList) (he' : '.' ∉ ending'.toList)
    (h : place ++ [id ++ "." ++ ending] = place ++ [id' ++ "." ++ ending']) : id = id' ∧ ending = ending' :=
  Path.ending_inj he he' (List.singleton_inj.mp (List.append_cancel_left h))

theorem free_of_ending : ∀ ending ∈ ["json", "yaml", "yml"], '.' ∉ ending.toList := by decide

/-- A save replaces what is under its id and leaves the rest. -/
theorem Holds.save (h : s.Holds f place cs) {c : MappingConfiguration} (hc : c.Storable) :
    ∃ g, s.save? f c = some g ∧ s.Holds g place (cs ++ [c]) := by
  have hfile : Path.IsLeaf (c.id ++ "." ++ "json") := Path.isLeaf_append hc.free hc.valid (by decide)
  refine ⟨f.put (place ++ [c.id ++ "." ++ "json"]) (encode c).pretty, ?_, ?_⟩
  · rw [save?, h.directory.makeDirectory?, Option.bind_some]
    exact h.directory.write?_join hfile (h.noDirectory _) _
  · refine ⟨h.directory.congr rfl, h.noDirectory, fun id => ?_, fun id hid ending hending => ?_⟩
    · rw [lastSaved_snoc]
      by_cases hid : c.id = id
      · subst hid
        rw [if_pos rfl, Files.textAt?_put_self, Option.map_some]
      · have hne : place ++ [id ++ "." ++ "json"] ≠ place ++ [c.id ++ "." ++ "json"] := fun heq =>
          hid (place_inj (by decide) (by decide) heq).1.symm
        rw [if_neg hid, Files.textAt?_put_of_ne hne, h.saved]
    · have hne : place ++ [id ++ "." ++ ending] ≠ place ++ [c.id ++ "." ++ "json"] := by
        intro heq
        have hjson := (place_inj (free_of_ending ending (List.mem_cons_of_mem _ hending)) (by decide) heq).2
        subst hjson
        exact absurd hending (by decide)
      rw [lastSaved_snoc] at hid
      rw [Files.textAt?_put_of_ne hne]
      split at hid
      · cases hid
      · exact h.beside id hid ending hending

theorem Holds.saveAll (h : s.Holds f place cs) {more : List MappingConfiguration} (hmore : ∀ c ∈ more, c.Storable) :
    ∃ g, s.saveAll? f more = some g ∧ s.Holds g place (cs ++ more) := by
  induction more generalizing f cs with
  | nil => exact ⟨f, rfl, by rwa [List.append_nil]⟩
  | cons c more ih =>
    obtain ⟨g, hsave, hg⟩ := h.save (hmore c List.mem_cons_self)
    obtain ⟨k, hrest, hk⟩ := ih hg fun d hd => hmore d (List.mem_cons_of_mem _ hd)
    refine ⟨k, ?_, by rwa [List.append_assoc, List.singleton_append] at hk⟩
    rw [saveAll?, hsave, Option.bind_some, hrest]

/-- A YAML file under a saved id is never looked at. -/
theorem Holds.write (h : s.Holds f place cs) (hcs : ∀ c ∈ cs, c.Storable) {w : Stray}
    (hid : (lastSaved w.id cs).isSome) (hending : w.ending ∈ ["yaml", "yml"]) :
    ∃ g, f.write? (s.path w.id w.ending) w.text = some g ∧ s.Holds g place cs := by
  obtain ⟨c, hlast⟩ := Option.isSome_iff_exists.mp hid
  obtain ⟨hmem, hname⟩ := mem_of_lastSaved hlast
  have hc := hcs c hmem
  have hany : w.ending ∈ ["json", "yaml", "yml"] := List.mem_cons_of_mem _ hending
  have hfile : Path.IsLeaf (w.id ++ "." ++ w.ending) := Path.isLeaf_append (hname ▸ hc.free) (hname ▸ hc.valid) hany
  refine ⟨_, h.directory.write?_join hfile (h.noDirectory _) _, h.directory.congr rfl, h.noDirectory, fun id => ?_,
    fun id hnone ending he => ?_⟩
  · have hne : place ++ [id ++ "." ++ "json"] ≠ place ++ [w.id ++ "." ++ w.ending] := by
      intro heq
      have hjson := (place_inj (by decide) (free_of_ending _ hany) heq).2
      rw [← hjson] at hending
      exact absurd hending (by decide)
    rw [Files.textAt?_put_of_ne hne, h.saved]
  · have hne : place ++ [id ++ "." ++ ending] ≠ place ++ [w.id ++ "." ++ w.ending] := by
      intro heq
      have hsame := (place_inj (free_of_ending ending (List.mem_cons_of_mem _ he)) (free_of_ending _ hany) heq).1
      rw [hsame, hlast] at hnone
      cases hnone
    rw [Files.textAt?_put_of_ne hne]
    exact h.beside id hnone ending he

theorem Holds.writeAll (h : s.Holds f place cs) (hcs : ∀ c ∈ cs, c.Storable) {ws : List Stray}
    (hws : ∀ w ∈ ws, (lastSaved w.id cs).isSome ∧ w.ending ∈ ["yaml", "yml"]) :
    ∃ g, s.writeAll? f ws = some g ∧ s.Holds g place cs := by
  induction ws generalizing f with
  | nil => exact ⟨f, rfl, h⟩
  | cons w ws ih =>
    obtain ⟨hid, hending⟩ := hws w List.mem_cons_self
    obtain ⟨g, hwrite, hg⟩ := h.write hcs hid hending
    obtain ⟨k, hrest, hk⟩ := ih hg fun v hv => hws v (List.mem_cons_of_mem _ hv)
    exact ⟨k, by rw [writeAll?, hwrite, Option.bind_some, hrest], hk⟩

/-! ## Loading -/

theorem load_of_found {id path : String} (h : (s.candidates id).find? f.contains = some path) :
    s.load f id = (f.record MappingConfiguration path).map some := by
  delta load
  rw [h]

theorem load_of_absent {id : String} (h : (s.candidates id).find? f.contains = none) : s.load f id = .ok none := by
  delta load
  rw [h]

theorem Holds.contains (h : s.Holds f place cs) {id ending : String} (hs : '/' ∉ id.toList)
    (hvalid : Char.ofNat 0 ∉ id.toList) (he : ending ∈ ["json", "yaml", "yml"]) :
    f.contains (s.path id ending) = (f.textAt? (place ++ [id ++ "." ++ ending])).isSome := by
  have hfree : f.directories.contains (place ++ [id ++ "." ++ ending]) = false := by
    simpa using h.noDirectory (id ++ "." ++ ending)
  rw [path, h.directory.contains_join (Path.isLeaf_append hs hvalid he), hfree, Bool.or_false]

/-- What was last saved under an id is read from its file. -/
theorem Holds.record (h : s.Holds f place cs) {c : MappingConfiguration} (hc : c.Storable)
    (hlast : lastSaved c.id cs = some c) : f.record MappingConfiguration (s.path c.id "json") = .ok c := by
  have hfile : Path.IsLeaf (c.id ++ "." ++ "json") := Path.isLeaf_append hc.free hc.valid (by decide)
  have htext : f.text? (s.path c.id "json") = some (encode c).pretty := by
    rw [path, h.directory.text?_join hfile, h.saved, hlast, Option.map_some]
  have hyaml : Files.isYaml (s.path c.id "json") = false := by
    have hextension : Path.extension? (s.path c.id "json") = some "json" := by
      rw [Path.extension?, path, hfile.name?_join, Option.bind_some, Path.cutName_append hc.named (by decide)]
    simp only [Files.isYaml, hextension]
    decide
  exact Files.record_json htext hyaml hc.decode?_pretty

/-- The store gives what was last saved under an id, and nothing for any other name. -/
theorem Holds.load (h : s.Holds f place cs) (hcs : ∀ c ∈ cs, c.Storable) {id : String} (hs : '/' ∉ id.toList) :
    s.load f id = .ok (lastSaved id cs) := by
  cases hlast : lastSaved id cs with
  | some c =>
    obtain ⟨hmem, rfl⟩ := mem_of_lastSaved hlast
    have hc := hcs c hmem
    have hjson : f.contains (s.path c.id "json") = true := by
      rw [h.contains hc.free hc.valid (by decide), h.saved, hlast]
      rfl
    have hfirst : (s.candidates c.id).find? f.contains = some (s.path c.id "json") := List.find?_cons_of_pos hjson
    rw [load_of_found hfirst, h.record hc hlast]
    rfl
  | none =>
    have habsent : ∀ ending ∈ ["json", "yaml", "yml"], f.contains (s.path id ending) = false := by
      intro ending he
      by_cases hvalid : Char.ofNat 0 ∈ id.toList
      · exact Files.not_contains (Path.mem_join_right (by simp [hvalid]))
      · rw [h.contains hs hvalid he]
        rcases List.mem_cons.mp he with rfl | he
        · rw [h.saved, hlast]
          rfl
        · rw [h.beside id hlast ending he]
          rfl
    have hnone : (s.candidates id).find? f.contains = none := by
      rw [List.find?_eq_none]
      intro path hpath
      obtain ⟨ending, he, rfl⟩ := List.mem_map.mp hpath
      simp [habsent ending he]
    exact load_of_absent hnone

end

/-- **The store is a map from ids to configurations.** In an empty directory all saves succeed, and
afterwards each id has what was last saved under it, YAML files of saved ids beside it or not. -/
theorem load_saved (s : MappingStore) (f : Files) (place : Place) (cs : List MappingConfiguration) (ws : List Stray)
    (hdirectory : f.HasDirectory s.directory place)
    (hempty : ∀ name, f.textAt? (place ++ [name]) = none ∧ place ++ [name] ∉ f.directories)
    (hcs : ∀ c ∈ cs, c.Storable)
    (hws : ∀ w ∈ ws, (∃ c ∈ cs, c.id = w.id) ∧ w.ending ∈ ["yaml", "yml"]) :
    ∃ g, (s.saveAll? f cs).bind (s.writeAll? · ws) = some g ∧
      ∀ id : String, '/' ∉ id.toList → s.load g id = .ok (lastSaved id cs) := by
  have hstart : s.Holds f place [] :=
    ⟨hdirectory, fun name => (hempty name).2, fun id => (hempty _).1, fun id _ ending _ => (hempty _).1⟩
  obtain ⟨g, hsave, hg⟩ := hstart.saveAll hcs
  rw [List.nil_append] at hg
  obtain ⟨k, hwrite, hk⟩ := hg.writeAll hcs fun w hw => by
    obtain ⟨⟨c, hc, hid⟩, hending⟩ := hws w hw
    exact ⟨lastSaved_isSome.mpr ⟨c, hc, hid⟩, hending⟩
  exact ⟨k, by rw [hsave, Option.bind_some, hwrite], fun id hid => hk.load hcs hid⟩

/-! ## A store with three saves -/

def sample : MappingConfiguration :=
  { id := "cases", name := "Cases", database := "db"
    rules := [⟨"tagline", "body", some "text_to_text", some ⟨[("a", .array [.null, .object [("x", .float 0.1)]]),
      ("z", .string "\"\u0001")]⟩⟩]
    galleryItems := some 12, createdAt := ⟨19782, ⟨45296, 123456789⟩⟩, updatedAt := ⟨17166, ⟨86399, 1500000000⟩⟩ }

theorem storable_sample : sample.Storable where
  named := by decide
  free := by decide
  valid := by decide
  options := by
    intro r hr o ho
    obtain rfl := List.mem_singleton.mp hr
    obtain rfl := Option.some.inj ho
    show Json.normalize _ = _
    decide +kernel
  galleryItems := by
    rintro n ⟨⟩
    decide
  createdAt := ⟨by decide, by decide, by decide⟩
  updatedAt := ⟨by decide, by decide, by decide⟩
  readable := ⟨by decide +kernel, by decide +kernel⟩

def revised : MappingConfiguration := { sample with name := "Revised", rules := [], onboarded := true }

theorem storable_revised : revised.Storable where
  named := by decide
  free := by decide
  valid := by decide
  options := by
    rintro r ⟨⟩
  galleryItems := storable_sample.galleryItems
  createdAt := storable_sample.createdAt
  updatedAt := storable_sample.updatedAt
  readable := ⟨by decide +kernel, by decide +kernel⟩

def other : MappingConfiguration := { sample with id := ".other", galleryItems := none }

theorem storable_other : other.Storable where
  named := by decide
  free := by decide
  valid := by decide
  options := storable_sample.options
  galleryItems := by
    rintro n ⟨⟩
  createdAt := storable_sample.createdAt
  updatedAt := storable_sample.updatedAt
  readable := ⟨by decide +kernel, by decide +kernel⟩

theorem load_saved_sample :
    let s : MappingStore := ⟨"data/store/"⟩
    let f : Files := { directories := [["data", "store"], ["data"]] }
    let place : Place := ["data", "store"]
    let cs : List MappingConfiguration := [sample, other, revised]
    let ws : List Stray := [⟨"cases", "yaml", "id: x"⟩]
    f.HasDirectory s.directory place ∧
      (∀ name, f.textAt? (place ++ [name]) = none ∧ place ++ [name] ∉ f.directories) ∧
      (∀ c ∈ cs, c.Storable) ∧ (∀ w ∈ ws, (∃ c ∈ cs, c.id = w.id) ∧ w.ending ∈ ["yaml", "yml"]) ∧
      ∃ g, (s.saveAll? f cs).bind (s.writeAll? · ws) = some g ∧ s.load g "cases" = .ok (some revised) ∧
        s.load g ".other" = .ok (some other) ∧ s.load g "unknown" = .ok none := by
  intro s f place cs ws
  have hdirectory : f.HasDirectory s.directory place := ⟨by decide, by decide, by decide⟩
  have hempty : ∀ name, f.textAt? (place ++ [name]) = none ∧ place ++ [name] ∉ f.directories :=
    fun name => ⟨rfl, by simp [f, place]⟩
  have hcs : ∀ c ∈ cs, c.Storable := by
    simp only [cs, List.forall_mem_cons, List.not_mem_nil, false_imp_iff, implies_true, and_true]
    exact ⟨storable_sample, storable_other, storable_revised⟩
  have hws : ∀ w ∈ ws, (∃ c ∈ cs, c.id = w.id) ∧ w.ending ∈ ["yaml", "yml"] := by
    intro w hw
    obtain rfl := List.mem_singleton.mp hw
    exact ⟨⟨sample, List.mem_cons_self, rfl⟩, by decide⟩
  obtain ⟨g, hg, hload⟩ := load_saved s f place cs ws hdirectory hempty hcs hws
  refine ⟨hdirectory, hempty, hcs, hws, g, hg, ?_, ?_, ?_⟩
  · rw [hload "cases" (by decide)]
    rfl
  · rw [hload ".other" (by decide)]
    rfl
  · rw [hload "unknown" (by decide)]
    rfl

end MappingStore

end FieldBridge
