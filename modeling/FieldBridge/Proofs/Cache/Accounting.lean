import FieldBridge.Proofs.Cache.Queue

/-!
# What the counters count

A log of the lookups is kept beside the cache and emptied where the counters are set to
zero. What the cache reports is a count of this log, as a whole and for each id, and
nothing but a lookup or a reset changes it.
-/

namespace FieldBridge

structure Lookup where
  id : String
  hit : Bool

def tally (log : List Lookup) : Lookups := ⟨log.countP (·.hit), log.countP (!·.hit)⟩

variable {ε : Type}

namespace Cache

/-- The log after a request: a lookup is noted, and a reset empties it. -/
def logged (c : Cache) (log : List Lookup) : Request ε → List Lookup
  | .get k => log ++ [⟨k.id, (c.get k.id k.value k.options).1.isSome⟩]
  | .getOrCompute k _ => log ++ [⟨k.id, (c.get k.id k.value k.options).1.isSome⟩]
  | .clear => []
  | .resetStats => []
  | _ => log

def loggedAll (c : Cache) (log : List Lookup) : List (Request ε) → List Lookup
  | [] => log
  | r :: rs => (c.answer r).2.loggedAll (c.logged log r) rs

end Cache

/-- Requests that neither look up nor reset. -/
def Request.isSilent : Request ε → Bool
  | .get _ | .getOrCompute _ _ | .clear | .resetStats => false
  | _ => true

/-- A cache reports what stands in the log. -/
structure Accounts (c : Cache) (log : List Lookup) : Prop where
  hits : c.stats.hits = log.countP (·.hit)
  misses : c.stats.misses = log.countP (!·.hit)
  sorted : Keyed.Sorted c.stats.byConversion
  listed : ∀ id, id ∈ c.stats.byConversion.map (·.1) ↔ ∃ l ∈ log, l.id = id
  each : ∀ id, (Keyed.find? id c.stats.byConversion).getD {} = tally (log.filter (·.id == id))
  hits_sum : c.stats.hits = Keyed.total Lookups.hits c.stats.byConversion
  misses_sum : c.stats.misses = Keyed.total Lookups.misses c.stats.byConversion

/-! ## Operations that leave the counters alone -/

namespace Cache
variable (c : Cache)

/-- All that `stats` reports of the lookups. -/
def books : Lookups × Keyed Lookups := (c.counters, c.byConversion)

@[simp] theorem books_remove (key : String) : (c.remove key).books = c.books :=
  (congrArg books (c.clearEntries_remove key) :)

@[simp] theorem books_evictTo (bound : Nat) : (c.evictTo bound).books = c.books :=
  (congrArg books (c.clearEntries_evictTo bound) :)

@[simp] theorem books_removeAll (keys : List String) : (c.removeAll keys).books = c.books :=
  (congrArg books (c.clearEntries_removeAll keys) :)

@[simp] theorem books_look : c.look.books = c.books := rfl

@[simp] theorem books_store (key id : String) (v : Json) (ttl : Nat) : (c.store key id v ttl).books = c.books := rfl

@[simp] theorem books_set (id : String) (v : Json) (o : Options) (result : Json) (ttl : Option Nat) :
    (c.set id v o result ttl).books = c.books := by
  unfold set
  split
  · rfl
  · simp

theorem books_get (id : String) (v : Json) (o : Options) :
    (c.get id v o).2.books = (c.record id (c.get id v o).1.isSome).books := by
  unfold get
  split
  · rfl
  · dsimp only
    split
    · rfl
    · split
      · have hb := books_remove c.look (cacheKey id v o)
        simp only [books, look, Prod.mk.injEq] at hb
        simp [books, record, look, hb.1, hb.2]
      · rfl

theorem books_getOrCompute (id : String) (v : Json) (o : Options) (compute : Unit → Except ε Json) :
    (c.getOrCompute id v o compute).2.books = (c.get id v o).2.books := by
  unfold getOrCompute
  split
  · rename_i h
    rw [h]
  · rename_i h
    rw [h]
    cases compute () with
    | error e => rfl
    | ok result => exact books_set _ id v o result none

theorem books_answer_silent {r : Request ε} (h : r.isSilent = true) : (c.answer r).2.books = c.books := by
  cases r with
  | get k => cases h
  | getOrCompute k computed => cases h
  | clear => cases h
  | resetStats => cases h
  | set k result ttl => exact books_set c _ _ _ result ttl
  | invalidate k => exact books_remove c _
  | invalidateAll id => exact books_removeAll c _
  | purgeExpired => exact books_removeAll _ _
  | clearEntries => rfl
  | look => rfl
  | wait nanoseconds => rfl
  | updateSettings u =>
    simp only [answer, updateSettings]
    split
    · rfl
    · exact books_evictTo _ _

end Cache

/-! ## Counting one lookup -/

theorem Lookups.hits_record (l : Lookups) (hit : Bool) : (l.record hit).hits = l.hits + hit.toNat := by
  cases hit <;> rfl

theorem Lookups.misses_record (l : Lookups) (hit : Bool) : (l.record hit).misses = l.misses + (!hit).toNat := by
  cases hit <;> rfl

theorem Cache.total_record {c : Cache} {f : Lookups → Nat} {n : Bool → Nat}
    (hf : ∀ l hit, f (l.record hit) = f l + n hit) (h0 : f {} = 0) (hs : Keyed.Sorted c.byConversion) (id : String)
    (hit : Bool) :
    Keyed.total f (c.record id hit).byConversion = Keyed.total f c.byConversion + n hit := by
  have hcount := Keyed.total_insert f id (((Keyed.find? id c.byConversion).getD {}).record hit) hs
  rw [hf] at hcount
  cases hfind : Keyed.find? id c.byConversion with
  | none =>
    rw [hfind, Option.getD_none, h0] at hcount
    simpa [Cache.record, hfind] using hcount
  | some l =>
    rw [hfind, Option.getD_some, Option.map_some, Option.getD_some] at hcount
    simp only [Cache.record, hfind, Option.getD_some]
    omega

theorem tally_append (log : List Lookup) (l : Lookup) : tally (log ++ [l]) = (tally log).record l.hit := by
  cases h : l.hit <;> simp [tally, Lookups.record, h]

namespace Accounts
variable {c d : Cache} {log : List Lookup}

theorem congr (h : Accounts c log) (hb : d.books = c.books) : Accounts d log := by
  obtain ⟨hcounters, hby⟩ := Prod.mk.inj hb
  obtain ⟨hits, misses, sorted, listed, each, hits_sum, misses_sum⟩ := h
  simp only [Cache.stats] at *
  rw [← hcounters, ← hby] at *
  exact ⟨hits, misses, sorted, listed, each, hits_sum, misses_sum⟩

theorem empty (settings : CacheSettings) (clock : Clock) : Accounts (.empty settings clock) [] where
  hits := rfl
  misses := rfl
  sorted := .nil
  listed := by simp [Cache.empty, Cache.stats]
  each _ := rfl
  hits_sum := rfl
  misses_sum := rfl

theorem reset (c : Cache) : Accounts c.resetStats [] :=
  (empty c.settings c.clock).congr rfl

theorem record (h : Accounts c log) (id : String) (hit : Bool) :
    Accounts (c.record id hit) (log ++ [⟨id, hit⟩]) := by
  have hlookups : c.counters.record hit = tally (log ++ [⟨id, hit⟩]) := by
    rw [tally_append, tally, ← h.hits, ← h.misses]
    rfl
  refine ⟨congrArg Lookups.hits hlookups, congrArg Lookups.misses hlookups, Keyed.sorted_insert id _ h.sorted,
    fun id' => ?_, fun id' => ?_, ?_, ?_⟩
  · have hlisted := h.listed id'
    simp only [Cache.stats, ← Keyed.find?_isSome] at hlisted
    simp only [Cache.stats, Cache.record, ← Keyed.find?_isSome, Keyed.find?_insert, List.mem_append,
      List.mem_singleton]
    by_cases hid : id = id'
    · simp [hid]
    · simp [hid, hlisted]
  · have heach := h.each id'
    simp only [Cache.stats] at heach
    simp only [Cache.stats, Cache.record, Keyed.find?_insert, List.filter_append]
    by_cases hid : id = id'
    · subst hid
      simp [tally_append, heach]
    · simp [hid, heach]
  · calc (c.record id hit).stats.hits = c.stats.hits + hit.toNat := Lookups.hits_record _ _
      _ = Keyed.total Lookups.hits c.stats.byConversion + hit.toNat := by rw [← h.hits_sum]
      _ = _ := (Cache.total_record Lookups.hits_record rfl h.sorted id hit).symm
  · calc (c.record id hit).stats.misses = c.stats.misses + (!hit).toNat := Lookups.misses_record _ _
      _ = Keyed.total Lookups.misses c.stats.byConversion + (!hit).toNat := by rw [← h.misses_sum]
      _ = _ := (Cache.total_record Lookups.misses_record rfl h.sorted id hit).symm

theorem answer (h : Accounts c log) (r : Request ε) : Accounts (c.answer r).2 (c.logged log r) := by
  cases r with
  | get k => exact (h.record k.id _).congr (c.books_get ..)
  | getOrCompute k computed => exact (h.record k.id _).congr ((c.books_getOrCompute ..).trans (c.books_get ..))
  | clear => exact reset c.clearEntries
  | resetStats => exact reset c
  | _ => exact h.congr (c.books_answer_silent rfl)

theorem answers (h : Accounts c log) (requests : List (Request ε)) :
    Accounts (answers Cache.answer c requests).2 (c.loggedAll log requests) := by
  induction requests generalizing c log with
  | nil => exact h
  | cons r requests ih => exact ih (h.answer r)

end Accounts

theorem Cache.Reachable.accounts {c : Cache} (h : c.Reachable) : ∃ log, Accounts c log := by
  obtain ⟨settings, clock, requests, -, rfl⟩ := h
  exact ⟨_, (Accounts.empty settings clock).answers requests⟩

/-- **Lookups are accounted for.** Whatever is asked of a new cache, enabled or not and by any clock,
it reports the lookups since the last reset: those that found a result and those that did not, for
every id and in total. No other request changes what is reported of them. -/
theorem lookups_accounted (settings : CacheSettings) (clock : Clock) (requests : List (Request ε)) :
    Accounts (answers Cache.answer (.empty settings clock) requests).2
        ((Cache.empty settings clock).loggedAll [] requests) ∧
      ∀ (c : Cache) (r : Request ε), r.isSilent = true → (c.answer r).2.books = c.books :=
  ⟨(Accounts.empty settings clock).answers requests, fun c _ h => c.books_answer_silent h⟩

end FieldBridge
