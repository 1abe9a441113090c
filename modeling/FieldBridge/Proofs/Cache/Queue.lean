import FieldBridge.Proofs.Cache.Key
import FieldBridge.Proofs.Cache.Representation
import Mathlib.Data.List.Forall2

/-!
# The cache is a bounded queue

The reference is a list of items, oldest first, each with the call it answers, beside
the settings and a clock. It has no keys and no sequence numbers. Whatever is asked of a
cache, in whatever order and however much time goes by meanwhile, it answers as the
reference does.
-/

namespace FieldBridge

/-- A run of one conversion, as the cache is asked about it. -/
structure Call where
  id : String
  value : Json
  options : Options

namespace Call

def key (k : Call) : String := cacheKey k.id k.value k.options

structure Same (k l : Call) : Prop where
  id : k.id = l.id
  value : Json.Same k.value l.value
  options : Json.Same k.options.toJson l.options.toJson

theorem same_iff {k l : Call} : k.Same l ↔ k.id = l.id ∧ k.value.normalize = l.value.normalize ∧
    k.options.toJson.normalize = l.options.toJson.normalize := by
  rw [← Json.same_iff_normalize_eq, ← Json.same_iff_normalize_eq]
  exact ⟨fun ⟨hi, hv, ho⟩ => ⟨hi, hv, ho⟩, fun ⟨hi, hv, ho⟩ => ⟨hi, hv, ho⟩⟩

instance (k l : Call) : Decidable (k.Same l) := decidable_of_iff _ same_iff.symm

theorem key_eq_iff {k l : Call} : k.key = l.key ↔ k.Same l :=
  cacheKey_eq_iff_normalize.trans same_iff.symm

theorem Same.symm {k l : Call} (h : k.Same l) : l.Same k := key_eq_iff.mp (key_eq_iff.mpr h).symm

theorem Same.trans {k l m : Call} (h : k.Same l) (h' : l.Same m) : k.Same m :=
  key_eq_iff.mp ((key_eq_iff.mpr h).trans (key_eq_iff.mpr h'))

end Call

/-! ## The reference -/

structure Item where
  call : Call
  result : Json
  ttl : Nat
  /-- when it was stored -/
  since : Nat

def Item.expired (i : Item) (now : Nat) : Bool := i.ttl ≤ now - i.since

structure Queue where
  /-- oldest first -/
  items : List Item
  settings : CacheSettings
  clock : Clock

namespace Queue

def find? (q : Queue) (k : Call) : Option Item := q.items.find? fun i => i.call.Same k

def without (q : Queue) (p : Item → Bool) : Queue := { q with items := q.items.filter (!p ·) }

/-- Drops items from the front until the number of those left is one that fits. -/
def trim (fits : Nat → Bool) : List Item → List Item
  | [] => []
  | i :: items => if fits (items.length + 1) then i :: items else trim fits items

def look (q : Queue) : Queue := { q with clock := q.clock.look }

def wait (q : Queue) (nanoseconds : Nat) : Queue := { q with clock := q.clock.wait nanoseconds }

def get (q : Queue) (k : Call) : Option Json × Queue :=
  if !q.settings.enabled then (none, q)
  else
    match q.find? k with
    | none => (none, q)
    | some i =>
      if i.expired q.clock.look.now then (none, q.look.without (·.call.Same k)) else (some i.result, q.look)

def set (q : Queue) (k : Call) (result : Json) (ttl : Option Nat) : Queue :=
  if !q.settings.enabled then q
  else
    { q.look with items := trim (· < q.settings.capacity) (q.without (·.call.Same k)).items ++
        [⟨k, result, ttl.getD q.settings.ttl, q.clock.look.now⟩] }

/-- Drops the items that have expired when they are looked at; says how many there were. -/
def purgeExpired (q : Queue) : Nat × Queue :=
  let kept := q.clock.pick (fun now i => !i.expired now) q.items
  (q.items.length - kept.length, { q.look with items := kept })

def updateSettings (q : Queue) (u : SettingsUpdate) : Except Error CacheSettings × Queue :=
  if u.capacity = some 0 then (.error .zeroCapacity, q)
  else
    let settings := q.settings.apply u
    (.ok settings, { q with items := trim (· ≤ settings.capacity) q.items, settings := settings })

end Queue

/-! ## Requests and answers -/

/-- What can be asked of a cache, and what may go on meanwhile: someone else looks at the clock,
or time goes by. The outcome of a computation may be a failure. -/
inductive Request (ε : Type) where
  | get (k : Call)
  | set (k : Call) (result : Json) (ttl : Option Nat)
  | getOrCompute (k : Call) (computed : Except ε Json)
  | invalidate (k : Call)
  | invalidateAll (id : String)
  | purgeExpired
  | clear
  | clearEntries
  | resetStats
  | updateSettings (u : SettingsUpdate)
  | look
  | wait (nanoseconds : Nat)

inductive Answer (ε : Type) where
  | done
  | stored (result : Option Json)
  | computed (outcome : Except ε Json)
  | removed (any : Bool)
  | count (n : Nat)
  | settings (outcome : Except Error CacheSettings)

variable {ε : Type}

def Cache.answer (c : Cache) : Request ε → Answer ε × Cache
  | .get k => let r := c.get k.id k.value k.options; (.stored r.1, r.2)
  | .set k result ttl => (.done, c.set k.id k.value k.options result ttl)
  | .getOrCompute k computed =>
    let r := c.getOrCompute k.id k.value k.options fun _ => computed; (.computed r.1, r.2)
  | .invalidate k => let r := c.invalidate k.id k.value k.options; (.removed r.1, r.2)
  | .invalidateAll id => let r := c.invalidateAll id; (.count r.1, r.2)
  | .purgeExpired => let r := c.purgeExpired; (.count r.1, r.2)
  | .clear => (.done, c.clear)
  | .clearEntries => (.done, c.clearEntries)
  | .resetStats => (.done, c.resetStats)
  | .updateSettings u => let r := c.updateSettings u; (.settings r.1, r.2)
  | .look => (.done, c.look)
  | .wait nanoseconds => (.done, c.wait nanoseconds)

def Queue.answer (q : Queue) : Request ε → Answer ε × Queue
  | .get k => let r := q.get k; (.stored r.1, r.2)
  | .set k result ttl => (.done, q.set k result ttl)
  | .getOrCompute k computed =>
    match q.get k, computed with
    | (some stored, q), _ => (.computed (.ok stored), q)
    | (none, q), .error e => (.computed (.error e), q)
    | (none, q), .ok result => (.computed (.ok result), q.set k result none)
  | .invalidate k => (.removed (q.find? k).isSome, q.without (·.call.Same k))
  | .invalidateAll id => (.count (q.items.countP (·.call.id == id)), q.without (·.call.id == id))
  | .purgeExpired => let r := q.purgeExpired; (.count r.1, r.2)
  | .clear => (.done, { q with items := [] })
  | .clearEntries => (.done, { q with items := [] })
  | .resetStats => (.done, q)
  | .updateSettings u => let r := q.updateSettings u; (.settings r.1, r.2)
  | .look => (.done, q.look)
  | .wait nanoseconds => (.done, q.wait nanoseconds)

/-- The answers to requests made one after another, and what is left behind them. -/
def answers {σ : Type} (answer : σ → Request ε → Answer ε × σ) : σ → List (Request ε) → List (Answer ε) × σ
  | s, [] => ([], s)
  | s, r :: rs =>
    let a := answer s r
    let rest := answers answer a.2 rs
    (a.1 :: rest.1, rest.2)

/-! ## The time of a run -/

section
variable (c : Cache)

theorem Cache.precedes_answer (r : Request ε) : c.clock.Precedes (c.answer r).2.clock := by
  cases r with
  | get k => exact c.precedes_get k.id k.value k.options
  | set k result ttl => exact c.precedes_set k.id k.value k.options result ttl
  | getOrCompute k computed => exact c.precedes_getOrCompute k.id k.value k.options fun _ => computed
  | invalidate k => exact Cache.precedes_of_clearEntries (c.clearEntries_remove k.key)
  | invalidateAll id => exact Cache.precedes_of_clearEntries (c.clearEntries_removeAll _)
  | purgeExpired =>
    exact c.clock.precedes_look.trans (Cache.precedes_of_clearEntries (c.look.clearEntries_removeAll _))
  | clear | clearEntries | resetStats => exact .refl _
  | updateSettings u =>
    simp only [answer, updateSettings]
    split
    · exact .refl _
    · have hkept := Cache.clearEntries_evictTo { c with settings := c.settings.apply u } (c.settings.apply u).capacity
      have hclock := Cache.precedes_of_clearEntries hkept
      exact hclock
  | look => exact c.clock.precedes_look
  | wait nanoseconds => exact c.clock.precedes_wait nanoseconds

theorem Cache.precedes_answers (requests : List (Request ε)) :
    c.clock.Precedes (answers Cache.answer c requests).2.clock := by
  induction requests generalizing c with
  | nil => exact .refl _
  | cons r requests ih => exact (c.precedes_answer r).trans (ih _)

end

/-! ## What a cache stands for -/

/-- An entry and the item it stands for. -/
structure Stands (e : String × CacheEntry) (i : Item) : Prop where
  key : e.1 = i.call.key
  value : e.2.value = i.result
  conversion : e.2.conversion = i.call.id
  ttl : e.2.ttl = i.ttl
  since : e.2.createdAt = i.since

structure Refines (c : Cache) (q : Queue) : Prop where
  consistent : c.Consistent
  items : List.Forall₂ Stands c.queue q.items
  settings : c.settings = q.settings
  clock : c.clock = q.clock
  positive : 0 < q.settings.capacity
  bounded : q.items.length ≤ q.settings.capacity

section
variable {e : String × CacheEntry} {i : Item}

theorem Stands.key_iff (h : Stands e i) (k : Call) : e.1 = k.key ↔ i.call.Same k := by
  rw [h.key, Call.key_eq_iff]

theorem Stands.key_beq (h : Stands e i) (k : Call) : (e.1 == k.key) = decide (i.call.Same k) := by
  rw [Bool.eq_iff_iff, beq_iff_eq, decide_eq_true_iff, h.key_iff]

theorem Stands.expired (h : Stands e i) (now : Nat) : e.2.expired now = i.expired now := by
  rw [CacheEntry.expired, Item.expired, h.ttl, h.since]

end

theorem rel_find? {α β : Type} {R : α → β → Prop} {p : α → Bool} {r : β → Bool} (hpr : ∀ a b, R a b → p a = r b)
    {as : List α} {bs : List β} (h : List.Forall₂ R as bs) : Option.Rel R (as.find? p) (bs.find? r) := by
  induction h with
  | nil => exact .none
  | @cons a b as bs hab _ ih =>
    rw [List.find?_cons, List.find?_cons, ← hpr a b hab]
    cases p a with
    | true => exact .some hab
    | false => exact ih

theorem exists_of_mem {α β : Type} {R : α → β → Prop} {as : List α} {bs : List β} (h : List.Forall₂ R as bs) {a : α}
    (ha : a ∈ as) : ∃ b ∈ bs, R a b := by
  induction h with
  | nil => cases ha
  | @cons a' b as bs hab _ ih =>
    cases ha with
    | head => exact ⟨b, List.mem_cons_self, hab⟩
    | tail _ ha =>
      obtain ⟨b', hb, hr⟩ := ih ha
      exact ⟨b', List.mem_cons_of_mem _ hb, hr⟩

theorem Queue.trim_eq_drop {fits : Nat → Bool} {bound : Nat} (h : ∀ n, fits n = true ↔ n ≤ bound)
    (items : List Item) : trim fits items = items.drop (items.length - bound) := by
  induction items with
  | nil => rw [trim, List.drop_nil]
  | cons i items ih =>
    rw [trim, List.length_cons]
    split
    case isTrue hf =>
      rw [Nat.sub_eq_zero_of_le ((h _).mp hf), List.drop_zero]
    case isFalse hf =>
      have hlt : bound < items.length + 1 := Nat.lt_of_not_le fun hle => hf ((h _).mpr hle)
      rw [ih, Nat.succ_sub (by omega), List.drop_succ_cons]

/-! ## One request -/

namespace Refines
variable {c : Cache} {q : Queue}

theorem empty {settings : CacheSettings} (h : 0 < settings.capacity) (clock : Clock) :
    Refines (.empty settings clock) ⟨[], settings, clock⟩ where
  consistent := ⟨rfl, .nil, .nil, fun _ hp => nomatch hp⟩
  items := .nil
  settings := rfl
  clock := rfl
  positive := h
  bounded := Nat.zero_le _

theorem length_eq (h : Refines c q) : c.size = q.items.length := by
  rw [Cache.size_eq, h.items.length_eq]

theorem congr (h : Refines c q) {d : Cache} (he : d.entries = c.entries) (ho : d.order = c.order)
    (hn : d.nextSequence = c.nextSequence) (hs : d.settings = c.settings) (ht : d.clock = c.clock) : Refines d q where
  consistent := h.consistent.congr he ho hn
  items := by rw [Cache.queue, he]; exact h.items
  settings := hs.trans h.settings
  clock := ht.trans h.clock
  positive := h.positive
  bounded := h.bounded

theorem record (h : Refines c q) (id : String) (hit : Bool) : Refines (c.record id hit) q :=
  h.congr rfl rfl rfl rfl rfl

/-- At another time both stand as before. -/
theorem withClock (h : Refines c q) (clock : Clock) :
    Refines { c with clock := clock } { q with clock := clock } where
  consistent := h.consistent.congr rfl rfl rfl
  items := h.items
  settings := h.settings
  clock := rfl
  positive := h.positive
  bounded := h.bounded

theorem look (h : Refines c q) : Refines c.look q.look := by
  rw [Cache.look, h.clock]
  exact h.withClock q.clock.look

theorem wait (h : Refines c q) (nanoseconds : Nat) : Refines (c.wait nanoseconds) (q.wait nanoseconds) := by
  rw [Cache.wait, h.clock]
  exact h.withClock (q.clock.wait nanoseconds)

theorem sublist (h : Refines c q) {es : List (String × CacheEntry)} {is : List Item} (hs : es.Sublist c.queue)
    (hi : List.Forall₂ Stands es is) : Refines (c.withQueue es) { q with items := is } where
  consistent := h.consistent.sublist hs
  items := by rw [Cache.queue_withQueue]; exact hi
  settings := h.settings
  clock := h.clock
  positive := h.positive
  bounded := by
    have hle := hs.length_le
    rw [hi.length_eq, h.items.length_eq] at hle
    exact hle.trans h.bounded

theorem filter (h : Refines c q) {p : String × CacheEntry → Bool} {r : Item → Bool}
    (hpr : ∀ e i, Stands e i → p e = r i) :
    Refines (c.withQueue (c.queue.filter (!p ·))) (q.without r) := by
  refine h.sublist List.filter_sublist (List.rel_filter (fun e i hei => ?_) h.items)
  show (!p e) = true ↔ (!r i) = true
  rw [hpr e i hei]

theorem remove (h : Refines c q) (k : Call) : Refines (c.remove k.key) (q.without (·.call.Same k)) := by
  rw [h.consistent.remove_eq]
  exact h.filter fun e i hei => hei.key_beq k

theorem find?_rel (h : Refines c q) (k : Call) :
    Option.Rel (fun e i => Stands (k.key, e) i) (c.find? k.key) (q.find? k) := by
  have hrel := rel_find? (R := Stands) (fun e i hei => hei.key_beq k) h.items
  rw [h.consistent.find?_eq, Queue.find?]
  generalize q.items.find? _ = found at hrel ⊢
  cases hc : c.queue.find? (·.1 == k.key) with
  | none =>
    rw [hc] at hrel
    cases hrel with
    | none => exact .none
  | some p =>
    have hkey : p.1 = k.key := by simpa using List.find?_some hc
    rw [hc] at hrel
    cases hrel with
    | some hp => exact .some (hkey ▸ hp)

theorem isSome_eq (h : Refines c q) (k : Call) : (c.find? k.key).isSome = (q.find? k).isSome := by
  have hrel := h.find?_rel k
  generalize c.find? k.key = a, q.find? k = b at hrel
  cases hrel <;> rfl

theorem get (h : Refines c q) (k : Call) : (c.get k.id k.value k.options).1 = (q.get k).1 ∧
    Refines (c.get k.id k.value k.options).2 (q.get k).2 := by
  rw [Cache.get, Queue.get, h.settings]
  split
  case isTrue => exact ⟨rfl, h.record _ _⟩
  case isFalse =>
    have hrel := h.find?_rel k
    rw [Call.key] at hrel
    dsimp only
    generalize c.find? (cacheKey k.id k.value k.options) = a, q.find? k = b at hrel
    cases hrel with
    | none => exact ⟨rfl, h.record _ _⟩
    | @some e i hei =>
      dsimp only
      rw [hei.expired, Cache.look, h.clock]
      split
      · exact ⟨rfl, ((h.withClock q.clock.look).remove k).record _ _⟩
      · exact ⟨congrArg some hei.value, (h.withClock q.clock.look).record _ _⟩

theorem evictTo (h : Refines c q) {fits : Nat → Bool} {bound : Nat} (hf : ∀ n, fits n = true ↔ n ≤ bound) :
    Refines (c.evictTo bound) { q with items := Queue.trim fits q.items } := by
  rw [h.consistent.evictTo_eq, Queue.trim_eq_drop hf, h.length_eq]
  exact h.sublist (List.drop_sublist _ _) (List.forall₂_drop _ h.items)

theorem set (h : Refines c q) (k : Call) (result : Json) (ttl : Option Nat) :
    Refines (c.set k.id k.value k.options result ttl) (q.set k result ttl) := by
  rw [Cache.set, Queue.set, h.settings]
  split
  case isTrue => exact h
  case isFalse =>
    have hpos := h.positive
    have hfits : ∀ n, decide (n < q.settings.capacity) = true ↔ n ≤ q.settings.capacity - 1 := by
      intro n
      rw [decide_eq_true_iff]
      omega
    have hroom := ((h.remove k).evictTo hfits).look
    -- the entry with this key went first, and none comes back when others are dropped
    have hfree : ∀ p ∈ ((c.remove k.key).evictTo (q.settings.capacity - 1)).queue, p.1 ≠ k.key := by
      rw [(h.remove k).consistent.evictTo_eq, h.consistent.remove_eq, Cache.queue_withQueue, Cache.queue_withQueue]
      intro p hp
      simpa using (List.mem_filter.mp (List.mem_of_mem_drop hp)).2
    refine ⟨hroom.consistent.store hfree _ _ _, ?_, hroom.settings, hroom.clock, h.positive, ?_⟩
    · rw [Cache.queue_store]
      refine List.rel_append hroom.items (.cons ⟨rfl, rfl, rfl, rfl, ?_⟩ .nil)
      exact congrArg Clock.now hroom.clock
    · rw [List.length_append, Queue.trim_eq_drop hfits, List.length_drop, List.length_singleton]
      dsimp only [Queue.look]
      omega

theorem clearEntries (h : Refines c q) : Refines c.clearEntries { q with items := [] } :=
  h.sublist (List.nil_sublist _) .nil

theorem invalidateAll (h : Refines c q) (id : String) :
    (c.invalidateAll id).1 = q.items.countP (·.call.id == id) ∧
      Refines (c.invalidateAll id).2 (q.without (·.call.id == id)) := by
  have hid : ∀ e i, Stands e i → (e.2.conversion == id) = (i.call.id == id) := by
    intro e i hei
    rw [hei.conversion]
  rw [h.consistent.invalidateAll_eq]
  refine ⟨?_, h.filter hid⟩
  simp only [List.countP_eq_length_filter]
  refine (List.rel_filter (fun e i hei => ?_) h.items).length_eq
  show (e.2.conversion == id) = true ↔ (i.call.id == id) = true
  rw [hid e i hei]

theorem purgeExpired (h : Refines c q) :
    c.purgeExpired.1 = q.purgeExpired.1 ∧ Refines c.purgeExpired.2 q.purgeExpired.2 := by
  have hkept := Clock.rel_pick (r := fun now (i : Item) => !i.expired now)
    (fun now (e : String × CacheEntry) => !e.2.expired now) q.clock (fun now e i hei => by rw [hei.expired]) h.items
  rw [h.consistent.purgeExpired_eq, Queue.purgeExpired, h.clock]
  constructor
  · dsimp only
    rw [h.items.length_eq, hkept.length_eq]
  · exact h.look.sublist (Clock.sublist_pick _ q.clock c.queue) hkept

theorem updateSettings (h : Refines c q) (u : SettingsUpdate) :
    (c.updateSettings u).1 = (q.updateSettings u).1 ∧ Refines (c.updateSettings u).2 (q.updateSettings u).2 := by
  rw [Cache.updateSettings, Queue.updateSettings, h.settings]
  split
  case isTrue => exact ⟨rfl, h⟩
  case isFalse hu =>
    have hpos : 0 < (q.settings.apply u).capacity := by
      have := h.positive
      rw [CacheSettings.apply]
      cases hcap : u.capacity with
      | none => exact this
      | some n => exact Nat.pos_of_ne_zero fun hn => hu (hcap.trans (congrArg some hn))
    have hc := h.consistent.congr (d := { c with settings := q.settings.apply u }) rfl rfl rfl
    refine ⟨rfl, ?_⟩
    dsimp only
    rw [hc.evictTo_eq, Queue.trim_eq_drop fun n => decide_eq_true_iff]
    have hsize : Cache.size { c with settings := q.settings.apply u } = q.items.length := h.length_eq
    rw [hsize]
    refine ⟨hc.sublist (List.drop_sublist _ _), ?_, rfl, h.clock, hpos, ?_⟩
    · rw [Cache.queue_withQueue]
      exact List.forall₂_drop _ h.items
    · rw [List.length_drop]
      dsimp only
      omega

theorem getOrCompute (h : Refines c q) (k : Call) (computed : Except ε Json) :
    (c.answer (.getOrCompute k computed)).1 = (q.answer (.getOrCompute k computed)).1 ∧
      Refines (c.answer (.getOrCompute k computed)).2 (q.answer (.getOrCompute k computed)).2 := by
  obtain ⟨hresult, hafter⟩ := h.get k
  simp only [Cache.answer, Queue.answer, Cache.getOrCompute]
  generalize c.get k.id k.value k.options = a, q.get k = b at hresult hafter
  obtain ⟨ra, c'⟩ := a
  obtain ⟨rb, q'⟩ := b
  cases hresult
  cases ra with
  | some stored => exact ⟨rfl, hafter⟩
  | none =>
    cases computed with
    | error e => exact ⟨rfl, hafter⟩
    | ok result => exact ⟨rfl, hafter.set k result none⟩

/-- One request: the same answer, and what is left stands for the reference again. -/
theorem answer (h : Refines c q) (r : Request ε) :
    (c.answer r).1 = (q.answer r).1 ∧ Refines (c.answer r).2 (q.answer r).2 := by
  cases r with
  | get k =>
    obtain ⟨hresult, hafter⟩ := h.get k
    exact ⟨congrArg Answer.stored hresult, hafter⟩
  | set k result ttl => exact ⟨rfl, h.set k result ttl⟩
  | getOrCompute k computed => exact h.getOrCompute k computed
  | invalidate k => exact ⟨congrArg Answer.removed (h.isSome_eq k), h.remove k⟩
  | invalidateAll id => exact ⟨congrArg Answer.count (h.invalidateAll id).1, (h.invalidateAll id).2⟩
  | purgeExpired => exact ⟨congrArg Answer.count h.purgeExpired.1, h.purgeExpired.2⟩
  | clear => exact ⟨rfl, h.clearEntries.congr rfl rfl rfl rfl rfl⟩
  | clearEntries => exact ⟨rfl, h.clearEntries⟩
  | resetStats => exact ⟨rfl, h.congr rfl rfl rfl rfl rfl⟩
  | updateSettings u => exact ⟨congrArg Answer.settings (h.updateSettings u).1, (h.updateSettings u).2⟩
  | look => exact ⟨rfl, h.look⟩
  | wait nanoseconds => exact ⟨rfl, h.wait nanoseconds⟩

theorem answers (h : Refines c q) (requests : List (Request ε)) :
    (answers Cache.answer c requests).1 = (answers Queue.answer q requests).1 ∧
      Refines (answers Cache.answer c requests).2 (answers Queue.answer q requests).2 := by
  induction requests generalizing c q with
  | nil => exact ⟨rfl, h⟩
  | cons r requests ih =>
    obtain ⟨hfirst, hafter⟩ := h.answer r
    obtain ⟨hrest, hlast⟩ := ih hafter
    refine ⟨?_, hlast⟩
    show _ :: _ = _ :: _
    rw [hfirst, hrest]

end Refines

/-! ## Caches in use -/

/-- Caches as they are after any requests to a new one. -/
def Cache.Reachable (c : Cache) : Prop :=
  ∃ (settings : CacheSettings) (clock : Clock) (requests : List (Request Failure)),
    0 < settings.capacity ∧ c = (answers Cache.answer (.empty settings clock) requests).2

theorem Cache.Reachable.refines {c : Cache} (h : c.Reachable) : ∃ q, Refines c q := by
  obtain ⟨settings, clock, requests, hpos, rfl⟩ := h
  exact ⟨_, ((Refines.empty hpos clock).answers requests).2⟩

theorem answers_append {σ : Type} (answer : σ → Request ε → Answer ε × σ) (s : σ) (rs rs' : List (Request ε)) :
    (answers answer s (rs ++ rs')).2 = (answers answer (answers answer s rs).2 rs').2 := by
  induction rs generalizing s with
  | nil => rfl
  | cons r rs ih => exact ih _

theorem Cache.Reachable.answers {c : Cache} (h : c.Reachable) (requests : List (Request Failure)) :
    (answers Cache.answer c requests).2.Reachable := by
  obtain ⟨settings, clock, before, hpos, rfl⟩ := h
  exact ⟨settings, clock, before ++ requests, hpos, (answers_append _ _ _ _).symm⟩

/-- Settings that are refused leave everything as it was. -/
theorem Cache.updateSettings_refused {c : Cache} {u : SettingsUpdate} {e : Error}
    (h : (c.updateSettings u).1 = .error e) : (c.updateSettings u).2 = c := by
  unfold updateSettings at h ⊢
  split
  case isTrue => rfl
  case isFalse hu =>
    rw [if_neg hu] at h
    cases h

/-- **The cache refines a bounded queue.** By any clock, a new cache answers any requests as the
empty queue with its settings does, and is left with as many entries as the queue has items, each
of them standing for the item at its place. Settings that it refuses then change nothing at all. -/
theorem cache_refines_queue {settings : CacheSettings} (h : 0 < settings.capacity) (clock : Clock)
    (requests : List (Request ε)) :
    ∃ c, Cache.withSettings settings clock = .ok c ∧
      (answers Cache.answer c requests).1 = (answers Queue.answer ⟨[], settings, clock⟩ requests).1 ∧
      (answers Cache.answer c requests).2.size =
        (answers Queue.answer ⟨[], settings, clock⟩ requests).2.items.length ∧
      Refines (answers Cache.answer c requests).2 (answers Queue.answer ⟨[], settings, clock⟩ requests).2 ∧
      ∀ u e, ((answers Cache.answer c requests).2.updateSettings u).1 = .error e →
        ((answers Cache.answer c requests).2.updateSettings u).2 = (answers Cache.answer c requests).2 := by
  obtain ⟨hanswers, hlast⟩ := (Refines.empty h clock).answers requests
  exact ⟨.empty settings clock, if_neg (Nat.ne_of_gt h), hanswers, hlast.length_eq, hlast,
    fun _ _ => Cache.updateSettings_refused⟩

/-- Three results in room for two, and time enough for the last of them to expire. -/
theorem cache_refines_queue_crowded :
    let settings : CacheSettings := ⟨2, 1000, true⟩
    let clock : Clock := { pace := fun look => look }
    let call (s : String) : Call := ⟨"upper", .string s, .empty⟩
    let requests : List (Request Failure) :=
      [.set (call "a") (.string "A") none, .set (call "b") (.string "B") none,
        .set (call "c") (.string "C") (some 10), .wait 7, .get (call "a"), .get (call "b"), .get (call "c"),
        .purgeExpired]
    0 < settings.capacity ∧ ∃ c, Cache.withSettings settings clock = .ok c ∧
      (answers Cache.answer c requests).1 = (answers Queue.answer ⟨[], settings, clock⟩ requests).1 ∧
      (answers Cache.answer c requests).2.size =
        (answers Queue.answer ⟨[], settings, clock⟩ requests).2.items.length ∧
      Refines (answers Cache.answer c requests).2 (answers Queue.answer ⟨[], settings, clock⟩ requests).2 ∧
      ∀ u e, ((answers Cache.answer c requests).2.updateSettings u).1 = .error e →
        ((answers Cache.answer c requests).2.updateSettings u).2 = (answers Cache.answer c requests).2 :=
  ⟨by decide, cache_refines_queue (by decide) _ _⟩

end FieldBridge
