import FieldBridge.Cache.Basic
import FieldBridge.Document.Record

/-!
# Settings and statistics of the cache in documents
-/

namespace FieldBridge

open Record

instance : Record CacheSettings where
  encode s := .object (member "capacity" s.capacity ++ member "ttlMs" s.ttlMilliseconds ++
    member "enabled" s.enabled)
  decode? d := do
    match ← d.slots? [slot "capacity", slot "ttlMs", slot "enabled"] with
    | [capacity, ttl, enabled] =>
      some ⟨← needed capacity, Nanoseconds.ofMilliseconds (← needed ttl), ← needed enabled⟩
    | _ => none

instance : Record Lookups where
  encode l := .object (member "hits" l.hits ++ member "misses" l.misses)
  decode? d := do
    match ← d.slots? [slot "hits", slot "misses"] with
    | [hits, misses] => some ⟨← needed hits, ← needed misses⟩
    | _ => none

instance : Record CacheStats where
  encode s := .object (member "hits" s.hits ++ member "misses" s.misses ++ member "size" s.size ++
    member "hitRate" s.hitRate ++ member "capacity" s.capacity ++ member "byTransformation" s.byConversion)
  decode? d := do
    match ← d.slots? [slot "hits", slot "misses", slot "size", slot "hitRate", slot "capacity",
        lastSlot "byTransformation"] with
    | [hits, misses, size, hitRate, capacity, byConversion] =>
      some ⟨← needed hits, ← needed misses, ← needed size, ← needed hitRate, ← needed capacity,
        ← orElse [] byConversion⟩
    | _ => none

end FieldBridge
