import FieldBridge.Proofs.Benchmark.Traffic

/-!
# A cache that is one entry too small

Values that come round in a fixed order push each other out: with room for fewer than all of
them, what is held is a window over the last values, and the next one is never in it.
-/

namespace FieldBridge

section
variable {α : Type} {n : Nat} {l m : List α} {a : α}

theorem rtake_append_of_le (h : n ≤ m.length) : (l ++ m).rtake n = m.rtake n := by
  rw [List.rtake, List.rtake, List.length_append, Nat.add_sub_assoc h, List.drop_append,
    List.drop_of_length_le (Nat.le_add_right _ _)]
  simp

/-- A window that moves on by one. -/
theorem rtake_rtake_snoc : (l.rtake n ++ [a]).rtake n = (l ++ [a]).rtake n := by
  cases n with
  | zero => simp
  | succ n =>
    have hback : (l.rtake (n + 1)).rtake n = l.rtake n := by
      simp [List.rtake_eq_reverse_take_reverse, List.take_take]
    rw [List.rtake_concat_succ, List.rtake_concat_succ, hback]

end

namespace Conversion
variable {t : Conversion} {capacity : Nat} {prev done rest vs : List Json} {v : Json}

/-- The next value of a round is not in the window: either it was not asked for yet, or all others
came after it. -/
theorem not_mem_window (hround : prev = [] ∨ prev = done ++ v :: rest) (hn : (done ++ v :: rest).Nodup)
    (hcap : capacity < (done ++ v :: rest).length) : v ∉ (prev ++ done).rtake capacity := by
  have hv := List.nodup_middle.mp hn
  rw [List.nodup_cons, List.mem_append, not_or] at hv
  rcases hround with rfl | rfl
  · intro h
    exact hv.1.1 (List.mem_of_mem_drop h)
  · intro h
    have hsplit : (done ++ v :: rest) ++ done = (done ++ [v]) ++ (rest ++ done) := by simp
    rw [hsplit, rtake_append_of_le] at h
    · rcases List.mem_append.mp (List.mem_of_mem_drop h) with h | h
      · exact hv.1.2 h
      · exact hv.1.1 h
    · simp only [List.length_append, List.length_cons] at hcap ⊢
      omega

theorem retain_window (hm : v ∉ (prev ++ done).rtake capacity) (hs : t.succeeds v = true) :
    t.retain capacity ((prev ++ done).rtake capacity) v = (prev ++ (done ++ [v])).rtake capacity := by
  rw [retain, if_neg hm, if_pos hs, rtake_rtake_snoc, List.append_assoc]

section
variable (hn : vs.Nodup) (hs : ∀ v ∈ vs, t.succeeds v = true) (hcap : capacity < vs.length)

include hn hs hcap in
/-- The rest of a round, with a window over what was asked for before. -/
theorem rest_of_round (hprev : prev = [] ∨ prev = vs) (hsplit : vs = done ++ rest) :
    t.retainAll capacity ((prev ++ done).rtake capacity) rest = (prev ++ vs).rtake capacity ∧
      t.lookups capacity ((prev ++ done).rtake capacity) rest = ⟨0, rest.length⟩ := by
  -- what was asked for in this round stands behind the window, which has moved on over it
  induction rest generalizing done with
  | nil =>
    rw [hsplit, List.append_nil]
    exact ⟨rfl, rfl⟩
  | cons v rest ih =>
    have hm : v ∉ (prev ++ done).rtake capacity := not_mem_window (hsplit ▸ hprev) (hsplit ▸ hn) (hsplit ▸ hcap)
    have hv : t.succeeds v = true := hs v (by simp [hsplit])
    have hnext : vs = (done ++ [v]) ++ rest := by simp [hsplit]
    obtain ⟨hheld, hcount⟩ := ih hnext
    constructor
    · rw [retainAll, List.foldl_cons, retain_window hm hv]
      exact hheld
    · rw [lookups, retain_window hm hv, hcount]
      simp [hm, Lookups.record, Lookups.plus, Nat.add_comm]

include hn hs hcap in
theorem round (hprev : prev = [] ∨ prev = vs) :
    t.retainAll capacity (prev.rtake capacity) vs = vs.rtake capacity ∧
      t.lookups capacity (prev.rtake capacity) vs = ⟨0, vs.length⟩ := by
  obtain ⟨hheld, hcount⟩ := rest_of_round hn hs hcap hprev (List.nil_append vs).symm
  rw [List.append_nil] at hheld hcount
  rw [rtake_append_of_le (Nat.le_of_lt hcap)] at hheld
  exact ⟨hheld, hcount⟩

include hn hs hcap in
theorem rounds (hprev : prev = [] ∨ prev = vs) (n : Nat) :
    t.retainAll capacity (prev.rtake capacity) (List.replicate (n + 1) vs).flatten = vs.rtake capacity ∧
      t.lookups capacity (prev.rtake capacity) (List.replicate (n + 1) vs).flatten = ⟨0, (n + 1) * vs.length⟩ := by
  induction n generalizing prev with
  | zero => simpa using round hn hs hcap hprev
  | succ n ih =>
    obtain ⟨hheld, hcount⟩ := round hn hs hcap hprev
    obtain ⟨hlast, hrest⟩ := ih (.inr rfl)
    rw [List.replicate_succ, List.flatten_cons, retainAll_append, lookups_append, hheld, hcount, hlast, hrest]
    refine ⟨rfl, ?_⟩
    simp only [Lookups.plus, Lookups.mk.injEq, true_and]
    rw [Nat.add_mul (n + 1) 1, Nat.one_mul, Nat.add_comm]

end

end Conversion

namespace Benchmark

/-- **A cache that is one entry too small.** In a cache with room for fewer than all samples, if these
differ and can all be converted, a comparative benchmark misses every lookup, however many iterations
it makes, and leaves the results of the last samples, as many as there is room for, in their order.
This does not come from their lifetime, which is longer than the benchmark takes. -/
theorem comparative_thrashes (ts : List Conversion) {t : Conversion}
    (ht : t ∈ (Catalog.empty.offerAll ts).conversions) {cache : Cache} (hr : cache.Reachable)
    (hon : cache.settings.enabled = true) {iterations samples : Nat} (hi : 1 ≤ iterations)
    (httl : duration (Catalog.empty.offerAll ts) cache t.id iterations samples < cache.settings.ttl)
    (hn : (t.source.samples samples).Nodup) (hs : ∀ v ∈ t.source.samples samples, t.succeeds v = true)
    (hcap : cache.settings.capacity < samples) :
    ∃ results after,
      comparative (Catalog.empty.offerAll ts) cache t.id iterations samples = (.ok results, after) ∧
        Counted t.id ⟨0, iterations * samples⟩ cache after ∧
        t.Fills ((t.source.samples samples).drop (samples - cache.settings.capacity)) after := by
  have hc : (Catalog.empty.offerAll ts).Indexed := (Catalog.orderly_empty.offerAll ts).toIndexed
  obtain ⟨results, after, heq, hcounted, hfills⟩ := comparative_held hc ht hr hon hi httl
  have hlen := t.source.length_samples samples
  obtain ⟨n, rfl⟩ : ∃ n, iterations = n + 1 := ⟨iterations - 1, by omega⟩
  obtain ⟨hheld, hlookups⟩ := Conversion.rounds hn hs (hlen.symm ▸ hcap) (.inl rfl) n
  rw [List.rtake_nil, ← traffic] at hheld hlookups
  rw [hlookups, hlen] at hcounted
  rw [hheld, List.rtake, hlen] at hfills
  exact ⟨results, after, heq, hcounted, hfills⟩

/-- Two samples and room for one of them. -/
theorem comparative_thrashes_ticks :
    let tick : Conversion :=
      { id := "tick", source := .checkbox, target := .email, name := "Tick", description := "", impact := .low
        complexity := .low, benchmarkable := true, sample := ⟨.bool true, .string "yes"⟩
        run := fun v _ =>
          match v with
          | .bool b => .ok (.string (if b then "yes" else "no"))
          | _ => .error (.rejected "neither ticked nor not") }
    let c : Catalog := Catalog.empty.offerAll [tick]
    let shouting : Request Failure := .getOrCompute ⟨"shout", .string "a", .empty⟩ (.ok (.string "a!"))
    let clock : Clock := { pace := fun _ => 20 }
    let cache : Cache := (answers Cache.answer (.empty ⟨1, 1000, true⟩ clock) [shouting, .wait 300]).2
    tick ∈ c.conversions ∧ cache.Reachable ∧ cache.settings.enabled = true ∧ 1 ≤ 3 ∧
      duration c cache tick.id 3 2 < cache.settings.ttl ∧ (tick.source.samples 2).Nodup ∧
      (∀ v ∈ tick.source.samples 2, tick.succeeds v = true) ∧ cache.settings.capacity < 2 ∧
      ∃ results after, comparative c cache tick.id 3 2 = (.ok results, after) ∧
        Counted tick.id ⟨0, 3 * 2⟩ cache after ∧
        tick.Fills ((tick.source.samples 2).drop (2 - cache.settings.capacity)) after := by
  intro tick c shouting clock cache
  have ht : tick ∈ c.conversions := List.mem_singleton_self tick
  have hr : cache.Reachable := ⟨⟨1, 1000, true⟩, clock, [shouting, .wait 300], by decide, rfl⟩
  have httl : duration c cache tick.id 3 2 < cache.settings.ttl := by decide +kernel
  have hn : (tick.source.samples 2).Nodup := by decide
  have hs : ∀ v ∈ tick.source.samples 2, tick.succeeds v = true := by decide
  have hcap : cache.settings.capacity < 2 := by decide
  exact ⟨ht, hr, rfl, by decide, httl, hn, hs, hcap,
    comparative_thrashes [tick] ht hr rfl (by decide) httl hn hs hcap⟩

end Benchmark

end FieldBridge
