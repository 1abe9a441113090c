import FieldBridge.Cache.Key
import FieldBridge.Clock
import FieldBridge.Error

/-!
# The cache of converted values

Results are held under the key of the call that made them, with at most `capacity`
of them at a time: the one that was stored first leaves first, and reading does not
change that order. A result that is stored again goes to the end of the queue. An entry expires
when its age reaches its lifetime. A disabled cache misses every lookup and stores
nothing. Times are in nanoseconds and are read off the clock that the cache goes by: it
looks at the clock when it stores an entry and each time it asks whether one has expired.
-/

namespace FieldBridge

structure CacheSettings where
  capacity : Nat := 500
  /-- in nanoseconds, as all lifetimes -/
  ttl : Nat := Nanoseconds.ofSeconds 1800
  enabled : Bool := true
  deriving DecidableEq, Repr

/-- A change of some of the settings. -/
structure SettingsUpdate where
  capacity : Option Nat := none
  ttl : Option Nat := none
  enabled : Option Bool := none
  deriving DecidableEq, Repr

/-- The whole milliseconds of the lifetime, with the bits that a number of 64 bits has. -/
def CacheSettings.ttlMilliseconds (s : CacheSettings) : Nat :=
  Nanoseconds.wholeMilliseconds s.ttl % 0x10000000000000000

def CacheSettings.apply (s : CacheSettings) (u : SettingsUpdate) : CacheSettings :=
  { capacity := u.capacity.getD s.capacity, ttl := u.ttl.getD s.ttl, enabled := u.enabled.getD s.enabled }

structure Lookups where
  hits : Nat := 0
  misses : Nat := 0
  deriving DecidableEq, Repr

namespace Lookups

def total (l : Lookups) : Nat := l.hits + l.misses

/-- The share of lookups that hit, 0 where there were none. -/
def hitRate (l : Lookups) : Float :=
  if l.total = 0 then 0.0 else Float.ofNat l.hits / Float.ofNat l.total

def record (l : Lookups) (hit : Bool) : Lookups :=
  if hit then { l with hits := l.hits + 1 } else { l with misses := l.misses + 1 }

end Lookups

structure CacheStats where
  hits : Nat
  misses : Nat
  size : Nat
  hitRate : Float
  capacity : Nat
  byConversion : Keyed Lookups

def CacheStats.lookups (s : CacheStats) : Nat := s.hits + s.misses

structure CacheEntry where
  value : Json
  createdAt : Nat
  ttl : Nat
  conversion : String
  sequence : Nat

def CacheEntry.expired (e : CacheEntry) (now : Nat) : Bool := e.ttl ≤ now - e.createdAt

structure Cache where
  entries : List (String × CacheEntry)
  /-- the keys in the order in which they were stored, oldest first -/
  order : List (Nat × String)
  nextSequence : Nat
  settings : CacheSettings
  counters : Lookups
  byConversion : Keyed Lookups
  clock : Clock

namespace Cache

def empty (settings : CacheSettings) (clock : Clock := {}) : Cache :=
  { entries := [], order := [], nextSequence := 0, settings := settings, counters := {}, byConversion := [],
    clock := clock }

/-- An empty cache; the capacity has to be at least 1. -/
def withSettings (settings : CacheSettings) (clock : Clock := {}) : Except Error Cache :=
  if settings.capacity = 0 then .error .zeroCapacity else .ok (empty settings clock)

def size (c : Cache) : Nat := c.entries.length

def find? (key : String) (c : Cache) : Option CacheEntry := c.entries.lookup key

/-- A look at the clock. -/
def look (c : Cache) : Cache := { c with clock := c.clock.look }

/-- Lets time go by. -/
def wait (c : Cache) (nanoseconds : Nat) : Cache := { c with clock := c.clock.wait nanoseconds }

/-! ## Removing -/

def remove (c : Cache) (key : String) : Cache :=
  match c.find? key with
  | none => c
  | some e =>
    { c with entries := c.entries.filter (·.1 != key), order := c.order.filter (·.1 != e.sequence) }

/-- The cache without the entry that was stored first. -/
def evict (c : Cache) : Cache :=
  match c.order with
  | [] => c
  | (_, key) :: rest => { c with entries := c.entries.filter (·.1 != key), order := rest }

/-- Evicts entries until at most `bound` are left. -/
def evictTo (bound : Nat) (c : Cache) : Cache := go c.order.length c
where
  go : Nat → Cache → Cache
    | 0, c => c
    | n + 1, c => if c.size ≤ bound then c else go n c.evict

def removeAll (c : Cache) (keys : List String) : Cache := keys.foldl remove c

/-- Removes one entry; says whether there was one. -/
def invalidate (c : Cache) (id : String) (value : Json) (options : Options) : Bool × Cache :=
  let key := cacheKey id value options
  ((c.find? key).isSome, c.remove key)

/-- Removes all entries of a conversion; says how many there were. -/
def invalidateAll (c : Cache) (id : String) : Nat × Cache :=
  let keys := (c.entries.filter (·.2.conversion == id)).map (·.1)
  (keys.length, c.removeAll keys)

/-- Removes all entries that have expired when they are looked at; says how many there were. -/
def purgeExpired (c : Cache) : Nat × Cache :=
  let gone := c.clock.pick (fun now (p : String × CacheEntry) => p.2.expired now) c.entries.reverse
  let keys := gone.map (·.1)
  (keys.length, c.look.removeAll keys)

/-- Drops all entries and keeps the counters. -/
def clearEntries (c : Cache) : Cache := { c with entries := [], order := [] }

/-- Sets the counters to zero and keeps the entries. -/
def resetStats (c : Cache) : Cache := { c with counters := {}, byConversion := [] }

def clear (c : Cache) : Cache := c.clearEntries.resetStats

/-! ## Looking up and storing -/

def record (c : Cache) (id : String) (hit : Bool) : Cache :=
  { c with
    counters := c.counters.record hit
    byConversion := Keyed.insert id (((Keyed.find? id c.byConversion).getD {}).record hit) c.byConversion }

/-- The stored result of a call. An expired one is removed and counts as a miss. -/
def get (c : Cache) (id : String) (value : Json) (options : Options) : Option Json × Cache :=
  if !c.settings.enabled then (none, c.record id false)
  else
    let key := cacheKey id value options
    match c.find? key with
    | none => (none, c.record id false)
    | some e =>
      let c := c.look
      if e.expired c.clock.now then (none, (c.remove key).record id false) else (some e.value, c.record id true)

/-- Stores a result at the end of the queue. -/
def store (c : Cache) (key : String) (id : String) (result : Json) (ttl : Nat) : Cache :=
  { c with
    entries := (key, ⟨result, c.clock.now, ttl, id, c.nextSequence⟩) :: c.entries
    order := c.order ++ [(c.nextSequence, key)]
    nextSequence := c.nextSequence + 1 }

/-- Stores the result of a call for `ttl`, or else for the lifetime in the settings. -/
def set (c : Cache) (id : String) (value : Json) (options : Options) (result : Json) (ttl : Option Nat) : Cache :=
  if !c.settings.enabled then c
  else
    let key := cacheKey id value options
    ((c.remove key).evictTo (c.settings.capacity - 1)).look.store key id result (ttl.getD c.settings.ttl)

/-- The stored result of a call, or else the computed one, which is stored unless it is a
failure. -/
def getOrCompute {ε : Type} (c : Cache) (id : String) (value : Json) (options : Options)
    (compute : Unit → Except ε Json) : Except ε Json × Cache :=
  match c.get id value options with
  | (some stored, c) => (.ok stored, c)
  | (none, c) =>
    match compute () with
    | .error e => (.error e, c)
    | .ok result => (.ok result, c.set id value options result none)

/-! ## Settings and statistics -/

def stats (c : Cache) : CacheStats :=
  { hits := c.counters.hits, misses := c.counters.misses, size := c.size, hitRate := c.counters.hitRate,
    capacity := c.settings.capacity, byConversion := c.byConversion }

/-- Changes settings and gives the new ones. A smaller capacity takes effect at once; another
lifetime holds for later entries. -/
def updateSettings (c : Cache) (u : SettingsUpdate) : Except Error CacheSettings × Cache :=
  if u.capacity = some 0 then (.error .zeroCapacity, c)
  else
    let settings := c.settings.apply u
    (.ok settings, evictTo settings.capacity { c with settings := settings })

end Cache

end FieldBridge
