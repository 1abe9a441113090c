import FieldBridge.Mapping.Run
import FieldBridge.Proofs.Conversion.Transparency

/-!
# Mapping through an honest cache

Two honest caches map a record to the same values, the same issues and the same
warnings, and both stay honest.
-/

namespace FieldBridge

def MappingRun.outcome (m : MappingRun) : (MappedRecord × List Warning) × Cache := ((m.record, m.warnings), m.cache)

/-- A record of values in normal form. -/
abbrev Row := { m : Keyed Json // (Json.object m).IsNormal }

abbrev Rule := { r : MappingRule // ∀ o, r.options = some o → o.IsNormal }

namespace Schema

variable {s : Schema} {m n : MappingRun}

theorem convert_alike (hc : s.catalog.Indexed) (h : Alike s.catalog m.outcome n.outcome) (r : Rule)
    (destination : DestinationField) (conversion : Option String) (v : Value) :
    Alike s.catalog (s.convert m r destination conversion v).outcome
      (s.convert n r destination conversion v).outcome := by
  obtain ⟨mr, mc, mw⟩ := m
  obtain ⟨nr, nc, nw⟩ := n
  obtain ⟨hresult, hm, hn⟩ := h
  obtain ⟨rfl, rfl⟩ := Prod.mk.inj hresult
  unfold Schema.convert
  cases conversion with
  | none => exact ⟨rfl, hm, hn⟩
  | some id =>
    have hoptions : (r.1.options.getD .empty).IsNormal := by
      cases ho : r.1.options with
      | none => rfl
      | some o => exact r.2 o ho
    obtain ⟨happlied, ham, han⟩ := Catalog.applyById_alike hc hm hn id v ⟨_, hoptions⟩
    obtain ⟨hvalue, hwarning⟩ := Prod.mk.inj happlied
    refine ⟨?_, ham, han⟩
    dsimp only [MappingRun.outcome, MappingRun.store] at *
    rw [hvalue, hwarning]

theorem step_alike (hc : s.catalog.Indexed) (h : Alike s.catalog m.outcome n.outcome) (record : Row) (r : Rule) :
    Alike s.catalog (s.step record m r).outcome (s.step record n r).outcome := by
  have hreport : ∀ kind message,
      Alike s.catalog (m.report r kind message).outcome (n.report r kind message).outcome := by
    intro kind message
    obtain ⟨hresult, hm, hn⟩ := h
    obtain ⟨hrecord, hwarnings⟩ := Prod.mk.inj hresult
    refine ⟨?_, hm, hn⟩
    dsimp only [MappingRun.outcome, MappingRun.report]
    rw [hrecord, hwarnings]
  unfold Schema.step
  split
  · exact hreport _ _
  · exact hreport _ _
  · dsimp only
    split
    · exact hreport _ _
    · split
      case h_1 => exact hreport _ _
      case h_2 value hv =>
        obtain ⟨hf, -⟩ := Option.filter_eq_some_iff.mp hv
        exact convert_alike hc h r _ _ ⟨value, record.2.find? hf⟩

theorem mapRecord_alike (hc : s.catalog.Indexed) {a b : Cache} (ha : Honest s.catalog a)
    (hb : Honest s.catalog b) (rules : List Rule) (record : Row) :
    Alike s.catalog (s.mapRecord (rules.map (·.1)) a record).outcome
      (s.mapRecord (rules.map (·.1)) b record).outcome := by
  rw [Schema.mapRecord, Schema.mapRecord]
  have h : Alike s.catalog (MappingRun.start a).outcome (MappingRun.start b).outcome := ⟨rfl, ha, hb⟩
  generalize MappingRun.start a = m, MappingRun.start b = n at h
  induction rules generalizing m n with
  | nil => exact h
  | cons r rules ih => exact ih _ _ (step_alike hc h record r)

end Schema

end FieldBridge
