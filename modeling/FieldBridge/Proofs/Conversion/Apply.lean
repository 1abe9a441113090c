import FieldBridge.Conversion.Apply

/-!
# Two ways to apply a conversion by id

`tryApply` tells what went wrong where `applyById` leaves the value as it was. They
agree in everything else, the cache that is left included.
-/

namespace FieldBridge.Catalog

variable (c : Catalog) (cache : Cache) (id : String) (value : Json) (options : Options)

theorem applyById_eq_tryApply :
    ((c.applyById cache id value options).value =
      match (c.tryApply cache id value options).1 with
      | .ok result => result
      | .error _ => value) ∧
    (c.applyById cache id value options).cache = (c.tryApply cache id value options).2 := by
  rw [applyById, tryApply]
  cases c.get? id with
  | none => exact ⟨rfl, rfl⟩
  | some t =>
    simp only [Conversion.apply]
    obtain ⟨outcome, after⟩ := t.runCached cache value options
    cases outcome with
    | ok result => exact ⟨rfl, rfl⟩
    | error e => exact ⟨rfl, rfl⟩

end FieldBridge.Catalog
