import FieldBridge.Cache.Key
import FieldBridge.CommandLine.Argument
import FieldBridge.Proofs.Document.Record

/-!
# Arguments that are canonical texts

An argument that cannot be read as JSON is taken as a text, without a word. The canonical
text of a value is never taken so: it is read back as the value, up to the depth that the
reader goes to.
-/

namespace FieldBridge.Argument

open Json

theorem value?_canonical {v : Json} (h : Readable maxDepth v) : value? v.canonical = some v.normalize := by
  have hnormal : v.normalize.normalize = v.normalize := isNormal_normalize v
  rw [value?, canonical, parse?_compact (readable_normalize h), Option.map_some, hnormal]

/-- **Canonical texts are read back as the values they came from.** A tree whose members are not
in order, or that has two of one name, comes back as the value it stands for. -/
theorem value_canonical (v : Json) (hdepth : v.depth ≤ 127) (hfloats : ∀ x ∈ v.floats, Number.Legible x) :
    value v.canonical = v.normalize ∧ Same (value v.canonical) v ∧ (v.IsNormal → value v.canonical = v) := by
  have hvalue : value v.canonical = v.normalize := by
    rw [value, value?_canonical ⟨hdepth, hfloats⟩, Option.getD_some]
  refine ⟨hvalue, hvalue ▸ same_normalize v, fun hnormal => ?_⟩
  rw [hvalue, hnormal]

/-- The ends of both ranges of whole numbers, floats on either side of the exponent, a text that
spells a number, and keys and texts that need escapes. -/
def sampleValue : Json :=
  .object [("", .array [.int (-0x8000000000000000), .int 0xffffffffffffffff, .float (-0.0), .float 1e16, .float 0.1]),
    ("\x00\x1f", .object [("\"\\\n", .string "1e5"), ("ñ", .array [])]), ("\x7b", .null)]

theorem value_canonical_sample : sampleValue.depth ≤ 127 ∧ (∀ x ∈ sampleValue.floats, Number.Legible x) ∧
    sampleValue.IsNormal ∧ value sampleValue.canonical = sampleValue := by
  have hdepth : sampleValue.depth ≤ 127 := by decide
  have hfloats : ∀ x ∈ sampleValue.floats, Number.Legible x := by decide +kernel
  have hnormal : sampleValue.IsNormal := by
    show sampleValue.normalize = sampleValue
    decide +kernel
  exact ⟨hdepth, hfloats, hnormal, (value_canonical sampleValue hdepth hfloats).2.2 hnormal⟩

end FieldBridge.Argument
