import FieldBridge.Benchmark.Samples
import FieldBridge.Proofs.Json.Value

/-!
# Samples

There are as many as were asked for, and all of them are values in normal form.
-/

namespace FieldBridge

open Json

section
variable {name other : String} {v w : Json}

theorem isNormal_string (s : String) : IsNormal (string s) := rfl

theorem isNormal_int (n : Int) : IsNormal (int n) := by
  rw [int]
  split <;> rfl

theorem isNormal_float (x : Float) : IsNormal (float x) := by
  rw [float]
  split <;> rfl

theorem isNormal_single (hv : IsNormal v) : IsNormal (object [(name, v)]) :=
  isNormal_object (List.pairwise_singleton _ _) fun p hp => by rwa [List.mem_singleton.mp hp]

theorem isNormal_pair (h : name < other) (hv : IsNormal v) (hw : IsNormal w) :
    IsNormal (object [(name, v), (other, w)]) := by
  refine isNormal_object (List.pairwise_pair.mpr h) fun p hp => ?_
  rcases List.mem_cons.mp hp with rfl | hp
  · exact hv
  · rwa [List.mem_singleton.mp hp]

theorem isNormal_items (hv : IsNormal v) (hw : IsNormal w) : IsNormal (array [v, w]) := by
  refine isNormal_array fun u hu => ?_
  rcases List.mem_cons.mp hu with rfl | hu
  · exact hv
  · rwa [List.mem_singleton.mp hu]

theorem isNormal_item (hv : IsNormal v) : IsNormal (array [v]) :=
  isNormal_array fun u hu => by rwa [List.mem_singleton.mp hu]

end

theorem isNormal_named (id name : String) : IsNormal (Sample.named id name) :=
  isNormal_pair (by decide) rfl rfl

theorem isNormal_file (name : String) : IsNormal (Sample.file name) :=
  isNormal_pair (by decide) rfl rfl

theorem isNormal_computed (n : Nat) : IsNormal (Sample.computed n) :=
  isNormal_pair (by decide) (isNormal_int n) rfl

theorem isNormal_choice (name : String) : IsNormal (choice name) := isNormal_single rfl

theorem Kind.isNormal_sample (i : Nat) : ∀ k : Kind, IsNormal (k.sample i)
  | .text | .title | .createdTime | .lastEditedTime | .url | .email | .phoneNumber => isNormal_string _
  | .richText => isNormal_item (isNormal_single (isNormal_single rfl))
  | .number => isNormal_float _
  | .date | .image => isNormal_single rfl
  | .checkbox => rfl
  | .select | .status => isNormal_choice _
  | .multiSelect => isNormal_items (isNormal_choice _) (isNormal_choice _)
  | .person | .createdBy | .lastEditedBy => isNormal_named _ _
  | .files => isNormal_items (isNormal_file _) (isNormal_file _)
  | .formula | .rollup => isNormal_computed _
  | .relation => isNormal_item (isNormal_single rfl)

@[simp] theorem Kind.length_samples (k : Kind) (count : Nat) : (k.samples count).length = count := by
  simp [samples]

theorem Kind.isNormal_of_mem_samples {k : Kind} {count : Nat} {v : Json} (h : v ∈ k.samples count) : IsNormal v := by
  obtain ⟨i, -, rfl⟩ := List.mem_map.mp h
  exact k.isNormal_sample i

end FieldBridge
