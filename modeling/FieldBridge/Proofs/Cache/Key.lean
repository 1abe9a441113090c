import FieldBridge.Cache.Key
import FieldBridge.Proofs.Json.Compact

/-!
# Cache keys never collide

The id of a conversion may hold any characters, the separator among them. The two
canonical texts after it hold no control character, so the last two separators of a key
are the ones that were put there, and each part can be read off from the right.
-/

namespace FieldBridge

/-- The parts before and after the last separator. -/
theorem append_separator_inj {c : Char} {as bs ds es : List Char} (hb : c ∉ bs) (he : c ∉ es)
    (h : as ++ c :: bs = ds ++ c :: es) : as = ds ∧ bs = es := by
  rcases List.append_eq_append_iff.mp h with ⟨m, rfl, hm⟩ | ⟨m, rfl, hm⟩
  · cases m with
    | nil => exact ⟨by simp, (List.cons.inj hm).2⟩
    | cons d m =>
      obtain ⟨rfl, rfl⟩ := List.cons.inj hm
      simp at hb
  · cases m with
    | nil => exact ⟨by simp, (List.cons.inj hm).2.symm⟩
    | cons d m =>
      obtain ⟨rfl, rfl⟩ := List.cons.inj hm
      simp at he

theorem Json.toList_canonical (v : Json) : v.canonical.toList = chars v.normalize := by
  rw [canonical, compact, String.toList_ofList]

/-- A canonical text has no control character in it. -/
theorem Json.not_mem_canonical {c : Char} (hc : c.toNat < 0x20) (v : Json) : c ∉ v.canonical.toList := by
  intro h
  rw [Json.toList_canonical] at h
  exact absurd (Json.chars_printed _ _ h) (Nat.not_le.mpr hc)

theorem toList_cacheKey (id : String) (v : Json) (o : Options) : (cacheKey id v o).toList =
    (id.toList ++ '\x1f' :: v.canonical.toList) ++ '\x1f' :: o.canonical.toList := by
  simp [cacheKey]

theorem cacheKey_eq_iff_normalize {id₁ id₂ : String} {v₁ v₂ : Json} {o₁ o₂ : Options} :
    cacheKey id₁ v₁ o₁ = cacheKey id₂ v₂ o₂ ↔
      id₁ = id₂ ∧ v₁.normalize = v₂.normalize ∧ o₁.toJson.normalize = o₂.toJson.normalize := by
  constructor
  · intro h
    have hl := congrArg String.toList h
    rw [toList_cacheKey, toList_cacheKey] at hl
    have hfree : ∀ v : Json, '\x1f' ∉ v.canonical.toList := Json.not_mem_canonical (by decide)
    obtain ⟨hfront, hoptions⟩ := append_separator_inj (hfree _) (hfree _) hl
    obtain ⟨hid, hvalue⟩ := append_separator_inj (hfree _) (hfree _) hfront
    exact ⟨String.toList_inj.mp hid, Json.compact_injective (String.toList_inj.mp hvalue),
      Json.compact_injective (String.toList_inj.mp hoptions)⟩
  · rintro ⟨rfl, hv, ho⟩
    rw [cacheKey, cacheKey, Json.canonical, Json.canonical, Options.canonical, Options.canonical, Json.canonical,
      Json.canonical, hv, ho]

/-- **Cache keys never collide.** Two calls share a key exactly when they run the same conversion
on the same value with the same options. -/
theorem cacheKey_eq_iff_same (id₁ id₂ : String) (v₁ v₂ : Json) (o₁ o₂ : Options) :
    cacheKey id₁ v₁ o₁ = cacheKey id₂ v₂ o₂ ↔
      id₁ = id₂ ∧ Json.Same v₁ v₂ ∧ Json.Same o₁.toJson o₂.toJson := by
  rw [cacheKey_eq_iff_normalize, Json.same_iff_normalize_eq, Json.same_iff_normalize_eq]

/-! ## Calls on values in normal form -/

/-- Options whose values are in normal form, under sorted names. -/
def Options.IsNormal (o : Options) : Prop := o.toJson.IsNormal

theorem cacheKey_inj {id₁ id₂ : String} {v₁ v₂ : Json} {o₁ o₂ : Options} (hv₁ : v₁.IsNormal) (hv₂ : v₂.IsNormal)
    (ho₁ : o₁.IsNormal) (ho₂ : o₂.IsNormal) :
    cacheKey id₁ v₁ o₁ = cacheKey id₂ v₂ o₂ ↔ id₁ = id₂ ∧ v₁ = v₂ ∧ o₁ = o₂ := by
  rw [cacheKey_eq_iff_normalize, hv₁, hv₂, ho₁, ho₂]
  simp only [Options.toJson, Json.object.injEq, ← Options.mk.injEq]

end FieldBridge
