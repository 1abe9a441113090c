import FieldBridge.Proofs.Cache.Representation

/-!
# Caches apart from their times

As long as no lifetime runs out, what is found in a cache and what is left of it apart from
its times does not depend on them. So two caches that differ in nothing but times give the
same results, and differ in nothing but times ever after.
-/

namespace FieldBridge

def CacheEntry.timeless (e : CacheEntry) : CacheEntry := { e with createdAt := 0 }

namespace Cache

/-- All of a cache but its times. -/
def timeless (c : Cache) : Cache :=
  { c with entries := c.entries.map fun p => (p.1, p.2.timeless), clock := {} }

/-- Nothing that is held expires until `time`, nor anything that is stored from now on. -/
structure Outlives (c : Cache) (time : Nat) : Prop where
  held : ∀ p ∈ c.entries, time - p.2.createdAt < p.2.ttl
  stored : time - c.clock.now < c.settings.ttl

/-- Two caches that differ in nothing but times, and in which nothing expires until `s` and `t`. -/
structure Agree (s t : Nat) (a b : Cache) : Prop where
  timeless : a.timeless = b.timeless
  left : a.Outlives s
  right : b.Outlives t

/-- The result that is held under a key, whether it has expired or not. -/
def held (c : Cache) (key : String) : Option Json :=
  if !c.settings.enabled then none else (c.find? key).map (·.value)

/-! ## The times do not matter -/

section
variable (c : Cache) (key id : String) (v : Json) (o : Options)

theorem timeless_find? : c.timeless.find? key = (c.find? key).map CacheEntry.timeless := by
  unfold find? timeless
  induction c.entries with
  | nil => rfl
  | cons p es ih =>
    rw [List.map_cons, List.lookup_cons, List.lookup_cons, ih]
    cases key == p.1 <;> rfl

theorem timeless_held : c.timeless.held key = c.held key := by
  unfold held
  rw [timeless_find?, Option.map_map]
  rfl

theorem timeless_remove : (c.remove key).timeless = c.timeless.remove key := by
  have hfind := c.timeless_find? key
  unfold remove
  rw [hfind]
  cases c.find? key with
  | none => rfl
  | some e =>
    dsimp only [timeless, Option.map_some]
    rw [List.filter_map]
    rfl

theorem timeless_evict : c.evict.timeless = c.timeless.evict := by
  have horder : c.timeless.order = c.order := rfl
  unfold evict
  rw [horder]
  cases c.order with
  | nil => rfl
  | cons p order =>
    dsimp only [timeless]
    rw [List.filter_map]
    rfl

theorem timeless_evictTo (bound : Nat) : (c.evictTo bound).timeless = c.timeless.evictTo bound := by
  have hsize (d : Cache) : d.timeless.size = d.size := List.length_map _
  unfold evictTo
  rw [show c.timeless.order = c.order from rfl]
  generalize c.order.length = n
  induction n generalizing c with
  | zero => rfl
  | succ n ih =>
    rw [evictTo.go, evictTo.go, hsize]
    split
    · rfl
    · rw [ih, timeless_evict]

theorem timeless_set (result : Json) (ttl : Option Nat) : (c.set id v o result ttl).timeless =
    let d := c.timeless
    if !d.settings.enabled then d
    else
      let key := cacheKey id v o
      ((d.remove key).evictTo (d.settings.capacity - 1)).store key id result (ttl.getD d.settings.ttl) := by
  have hroom : ((c.remove (cacheKey id v o)).evictTo (c.settings.capacity - 1)).timeless =
      (c.timeless.remove (cacheKey id v o)).evictTo (c.settings.capacity - 1) := by
    rw [timeless_evictTo, timeless_remove]
  unfold set
  dsimp only
  split
  case isTrue hoff => exact (if_pos hoff).symm
  case isFalse hon =>
    rw [if_neg (show ¬(!c.timeless.settings.enabled) = true from hon),
      show c.timeless.settings = c.settings from rfl, ← hroom]
    rfl

end

section
variable {c d : Cache} {time : Nat} {id : String} {v : Json} {o : Options}

/-- Where nothing has expired, a lookup finds what is held. -/
theorem get_of_fresh
    (hfresh : ∀ e, c.find? (cacheKey id v o) = some e → e.expired c.clock.look.now = false) :
    (c.get id v o).1 = c.held (cacheKey id v o) ∧
      (c.get id v o).2.timeless = c.timeless.record id (c.held (cacheKey id v o)).isSome := by
  unfold get held
  split
  · exact ⟨rfl, rfl⟩
  · dsimp only
    cases hf : c.find? (cacheKey id v o) with
    | none => exact ⟨rfl, rfl⟩
    | some e =>
      have he := hfresh e hf
      simp only [look, he]
      exact ⟨rfl, rfl⟩

/-! ## Nothing expires -/

theorem Outlives.of_subset (h : c.Outlives time) (hentries : d.entries ⊆ c.entries)
    (hsettings : d.settings = c.settings) (hclock : c.clock.now ≤ d.clock.now) : d.Outlives time where
  held p hp := h.held p (hentries hp)
  stored := by
    rw [hsettings]
    exact Nat.lt_of_le_of_lt (Nat.sub_le_sub_left hclock time) h.stored

theorem Outlives.look (h : c.Outlives time) : c.look.Outlives time :=
  h.of_subset (List.Subset.refl _) rfl c.clock.now_le_look

theorem settings_get (c : Cache) (id : String) (v : Json) (o : Options) : (c.get id v o).2.settings = c.settings := by
  unfold get
  split
  · rfl
  · dsimp only
    split
    · rfl
    · split
      · exact (settings_of_clearEntries (c.look.clearEntries_remove _) :)
      · rfl

theorem Outlives.get (h : c.Outlives time) (id : String) (v : Json) (o : Options) : (c.get id v o).2.Outlives time :=
  h.of_subset (c.entries_get id v o) (c.settings_get id v o) (c.precedes_get id v o).now

theorem Outlives.set (h : c.Outlives time) (id : String) (v : Json) (o : Options) (result : Json) :
    (c.set id v o result none).Outlives time := by
  unfold Cache.set
  split
  · exact h
  · have hroom := (clearEntries_evictTo (c.remove (cacheKey id v o)) (c.settings.capacity - 1)).trans
      (c.clearEntries_remove _)
    have hentries := List.Subset.trans (entries_evictTo (c.remove (cacheKey id v o)) (c.settings.capacity - 1))
      (entries_remove c _)
    dsimp only
    generalize (c.remove (cacheKey id v o)).evictTo (c.settings.capacity - 1) = room at hroom hentries
    have hsettings := settings_of_clearEntries hroom
    have hlater := (h.of_subset hentries hsettings (precedes_of_clearEntries hroom).now).look
    constructor
    · intro p hp
      rcases List.mem_cons.mp hp with rfl | hp
      · exact hsettings ▸ hlater.stored
      · exact hlater.held p hp
    · exact hlater.stored

/-- Whatever a lookup finds has not expired by the time when it ends. -/
theorem Outlives.fresh (h : c.Outlives time) (hend : (c.get id v o).2.clock.now ≤ time)
    (hon : c.settings.enabled = true) :
    ∀ e, c.find? (cacheKey id v o) = some e → e.expired c.clock.look.now = false := by
  intro e he
  have hclock : (c.get id v o).2.clock = c.clock.look := by
    unfold Cache.get
    simp only [hon, he, Bool.not_true, Bool.false_eq_true, if_false]
    split
    · exact (clock_of_clearEntries (c.look.clearEntries_remove _) :)
    · rfl
  have hheld := h.held _ (List.mem_reverse.mp (mem_queue_of_find? he))
  rw [hclock] at hend
  rw [CacheEntry.expired, decide_eq_false_iff_not, Nat.not_le]
  exact Nat.lt_of_le_of_lt (Nat.sub_le_sub_right hend _) hheld

end

/-! ## Two caches -/

namespace Agree
variable {a b : Cache} {s t : Nat} {id : String} {v : Json} {o : Options}

theorem settings (h : Agree s t a b) : a.settings = b.settings := (congrArg Cache.settings h.timeless :)

theorem look (h : Agree s t a b) : Agree s t a.look b.look where
  timeless := h.timeless
  left := h.left.look
  right := h.right.look

theorem clearEntries (h : Agree s t a b) : Agree s t a.clearEntries b.clearEntries where
  timeless := congrArg Cache.clearEntries h.timeless
  left := h.left.of_subset (List.nil_subset _) rfl (Nat.le_refl _)
  right := h.right.of_subset (List.nil_subset _) rfl (Nat.le_refl _)

theorem get (h : Agree s t a b) (hs : (a.get id v o).2.clock.now ≤ s) (ht : (b.get id v o).2.clock.now ≤ t) :
    (a.get id v o).1 = (b.get id v o).1 ∧ Agree s t (a.get id v o).2 (b.get id v o).2 := by
  have hheld : a.held (cacheKey id v o) = b.held (cacheKey id v o) := by
    rw [← timeless_held, h.timeless, timeless_held]
  have hboth : (a.get id v o).1 = (b.get id v o).1 ∧ (a.get id v o).2.timeless = (b.get id v o).2.timeless := by
    cases hon : a.settings.enabled with
    | false =>
      have hoff : b.settings.enabled = false := h.settings ▸ hon
      simp only [Cache.get, hon, hoff]
      exact ⟨rfl, congrArg (Cache.record · id false) h.timeless⟩
    | true =>
      obtain ⟨hfound, hafter⟩ := get_of_fresh (h.left.fresh hs hon)
      obtain ⟨hfound', hafter'⟩ := get_of_fresh (h.right.fresh ht (h.settings ▸ hon))
      rw [hfound, hfound', hafter, hafter', hheld, h.timeless]
      exact ⟨rfl, rfl⟩
  exact ⟨hboth.1, hboth.2, h.left.get id v o, h.right.get id v o⟩

theorem set (h : Agree s t a b) (id : String) (v : Json) (o : Options) (result : Json) :
    Agree s t (a.set id v o result none) (b.set id v o result none) where
  timeless := by rw [timeless_set, timeless_set, h.timeless]
  left := h.left.set id v o result
  right := h.right.set id v o result

/-- A lookup and what follows from it take as long as they may, as long as that is before `s` and `t`. -/
theorem getOrCompute {ε : Type} (h : Agree s t a b) (id : String) (v : Json) (o : Options)
    (compute : Unit → Except ε Json) (hs : (a.getOrCompute id v o compute).2.clock.now ≤ s)
    (ht : (b.getOrCompute id v o compute).2.clock.now ≤ t) :
    (a.getOrCompute id v o compute).1 = (b.getOrCompute id v o compute).1 ∧
      Agree s t (a.getOrCompute id v o compute).2 (b.getOrCompute id v o compute).2 := by
  have hget (c : Cache) := (c.get_precedes_getOrCompute id v o compute).now
  obtain ⟨hfound, hafter⟩ := h.get (Nat.le_trans (hget a) hs) (Nat.le_trans (hget b) ht)
  unfold Cache.getOrCompute
  generalize a.get id v o = got at hfound hafter
  generalize b.get id v o = got' at hfound hafter
  obtain ⟨found, a'⟩ := got
  obtain ⟨found', b'⟩ := got'
  cases hfound
  cases found with
  | some stored => exact ⟨rfl, hafter⟩
  | none =>
    dsimp only
    cases compute () with
    | error e => exact ⟨rfl, hafter⟩
    | ok result => exact ⟨rfl, hafter.set id v o result⟩

end Agree

end Cache

end FieldBridge
