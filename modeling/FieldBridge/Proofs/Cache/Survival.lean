import FieldBridge.Proofs.Cache.Queue
import Mathlib.Data.List.Dedup

/-!
# Which results are still there

As long as no lifetime runs out, the history of writes alone says what a cache holds: a
result is found while fewer other calls than the capacity were written after it. What the
queue holds is the end of the list of last writes, one for each call.
-/

namespace FieldBridge

structure Write where
  call : Call
  result : Json

/-- The last write of each call, in order. -/
def lastWrites (ws : List Write) : List Write := ws.pwFilter fun v w => ¬v.call.Same w.call

/-- The last write of a call gave this result, and fewer than `capacity` other calls came after it. -/
def Survives (capacity : Nat) (ws : List Write) (k : Call) (result : Json) : Prop :=
  ∃ w after, w :: after <:+ ws ∧ w.call.Same k ∧ w.result = result ∧
    (∀ v ∈ after, ¬v.call.Same k) ∧ (lastWrites after).length < capacity

variable {ε : Type}

namespace Request

/-- Storing and looking up while time goes by, with lifetimes of its own above `time`. -/
def Lasting (time : Nat) : Request ε → Prop
  | .set _ _ ttl => ∀ t, ttl = some t → time < t
  | .get _ | .getOrCompute _ _ | .look | .wait _ => True
  | _ => False

def isLookup : Request ε → Bool
  | .get _ | .getOrCompute _ _ => true
  | _ => false

/-- What a request writes, `found` being what is found before it. -/
def write? (found : Call → Option Json) : Request ε → Option Write
  | .set k result _ => some ⟨k, result⟩
  | .getOrCompute k (.ok result) => if (found k).isSome then none else some ⟨k, result⟩
  | _ => none

end Request

namespace Cache

/-- The time that a run and a lookup after it take. -/
def duration (c : Cache) (requests : List (Request ε)) : Nat :=
  (answers Cache.answer c requests).2.clock.look.now - c.clock.now

def found (c : Cache) (k : Call) : Option Json := (c.get k.id k.value k.options).1

def writes (c : Cache) : List (Request ε) → List Write
  | [] => []
  | r :: rs => (r.write? c.found).toList ++ (c.answer r).2.writes rs

end Cache

/-- What a cache answers is what the writes before say, and lookups that write nothing change none
of its answers: at one and the same time they are those that it gives without them. -/
structure Remembers (capacity : Nat) (ws : List Write) (c : Cache) : Prop where
  found_iff : ∀ k result, c.found k = some result ↔ Survives capacity ws k result
  lookup : ∀ {ε : Type} (r : Request ε), r.isLookup = true → r.write? c.found = none →
    ∀ (clock : Clock) (later : List (Request ε)),
      (answers Cache.answer { (c.answer r).2 with clock := clock } later).1 =
        (answers Cache.answer { c with clock := clock } later).1

/-! ## Last writes -/

theorem forall_mem_lastWrites (w : Write) (ws : List Write) :
    (∀ v ∈ lastWrites ws, ¬w.call.Same v.call) ↔ ∀ v ∈ ws, ¬w.call.Same v.call := by
  refine List.forall_mem_pwFilter (fun {a b c} hac => ?_) w ws
  by_contra! h
  exact hac (h.1.trans h.2)

theorem lastWrites_cons (w : Write) (ws : List Write) : lastWrites (w :: ws) =
    if ∀ v ∈ ws, ¬w.call.Same v.call then w :: lastWrites ws else lastWrites ws := by
  by_cases h : ∀ v ∈ ws, ¬w.call.Same v.call
  · rw [if_pos h]
    exact List.pwFilter_cons_of_pos ((forall_mem_lastWrites w ws).mpr h)
  · rw [if_neg h]
    exact List.pwFilter_cons_of_neg (mt (forall_mem_lastWrites w ws).mp h)

theorem lastWrites_append (ws : List Write) (w : Write) :
    lastWrites (ws ++ [w]) = (lastWrites ws).filter (fun v => !decide (v.call.Same w.call)) ++ [w] := by
  induction ws with
  | nil => rfl
  | cons u ws ih =>
    rw [List.cons_append, lastWrites_cons, lastWrites_cons, ih]
    by_cases hw : u.call.Same w.call
    · rw [if_neg fun h => h w (by simp) hw]
      split
      · rw [List.filter_cons_of_neg (by simpa using hw)]
      · rfl
    · by_cases h : ∀ v ∈ ws, ¬u.call.Same v.call
      · have h' : ∀ v ∈ ws ++ [w], ¬u.call.Same v.call := by
          intro v hv
          rcases List.mem_append.mp hv with hv | hv
          · exact h v hv
          · rwa [List.mem_singleton.mp hv]
        rw [if_pos h, if_pos h', List.filter_cons_of_pos (by simpa using hw)]
        rfl
      · rw [if_neg h, if_neg fun h' => h fun v hv => h' v (List.mem_append_left _ hv)]

/-- The last writes of a history end as those of its end do. -/
theorem suffix_lastWrites_iff {ws later : List Write} {w : Write} : w :: later <:+ lastWrites ws ↔
    ∃ after, w :: after <:+ ws ∧ (∀ v ∈ after, ¬w.call.Same v.call) ∧ lastWrites after = later := by
  induction ws with
  | nil => simp [lastWrites]
  | cons u ws ih =>
    rw [lastWrites_cons]
    split
    case isTrue h =>
      simp only [List.suffix_cons_iff, List.cons.injEq, ih]
      constructor
      · rintro (⟨rfl, rfl⟩ | ⟨after, hs, hafter, rfl⟩)
        · exact ⟨ws, .inl ⟨rfl, rfl⟩, h, rfl⟩
        · exact ⟨after, .inr hs, hafter, rfl⟩
      · rintro ⟨after, ⟨rfl, rfl⟩ | hs, hafter, rfl⟩
        · exact .inl ⟨rfl, rfl⟩
        · exact .inr ⟨after, hs, hafter, rfl⟩
    case isFalse h =>
      rw [ih]
      simp only [List.suffix_cons_iff, List.cons.injEq]
      constructor
      · rintro ⟨after, hs, hafter, rfl⟩
        exact ⟨after, .inr hs, hafter, rfl⟩
      · rintro ⟨after, ⟨rfl, rfl⟩ | hs, hafter, rfl⟩
        · exact absurd hafter h
        · exact ⟨after, hs, hafter, rfl⟩

/-! ## The queue and the history -/

def Item.write (i : Item) : Write := ⟨i.call, i.result⟩

/-- The queue of a run that began at `begun` holds the end of the last writes, and no item expires
before `deadline`. -/
structure Tracks (start : CacheSettings) (begun deadline : Nat) (ws : List Write) (q : Queue) : Prop where
  settings : q.settings = start
  enabled : start.enabled = true
  begun : begun ≤ q.clock.now
  fresh : ∀ i ∈ q.items, deadline - i.since < i.ttl
  held : ∃ dropped, lastWrites ws = dropped ++ q.items.map Item.write ∧
    (dropped ≠ [] → q.items.length = start.capacity)

theorem pairwise_lastWrites (ws : List Write) : (lastWrites ws).Pairwise fun v w => ¬v.call.Same w.call :=
  List.pairwise_pwFilter ws

namespace Queue

/-- The items of all other calls. -/
def others (q : Queue) (k : Call) : List Item := (q.without (·.call.Same k)).items

theorem set_eq {q : Queue} (hon : q.settings.enabled = true) (hpos : 0 < q.settings.capacity) (k : Call)
    (result : Json) (ttl : Option Nat) : q.set k result ttl =
      { q.look with items := (q.others k).drop ((q.others k).length - (q.settings.capacity - 1)) ++
          [⟨k, result, ttl.getD q.settings.ttl, q.clock.look.now⟩] } := by
  have hfits : ∀ n, decide (n < q.settings.capacity) = true ↔ n ≤ q.settings.capacity - 1 := by
    intro n
    rw [decide_eq_true_iff]
    omega
  rw [set, hon, trim_eq_drop hfits]
  rfl

/-- Of calls that all differ, at most one is not among the others. -/
theorem length_others {q : Queue} (h : (q.items.map (·.call.key)).Nodup) (k : Call) :
    q.items.length ≤ (q.others k).length + 1 := by
  have hsplit := List.length_eq_length_filter_add (l := q.items) fun i => decide (i.call.Same k)
  have hcount : (q.items.filter fun i => decide (i.call.Same k)).length ≤ 1 := by
    have hkey := List.nodup_iff_count_le_one.mp h k.key
    rw [List.count, List.countP_map] at hkey
    rw [← List.countP_eq_length_filter]
    refine le_trans (le_of_eq (List.countP_congr fun i _ => ?_)) hkey
    simp [Call.key_eq_iff]
  simp only [others, without]
  omega

theorem map_write_others (q : Queue) (k : Call) :
    (q.others k).map Item.write = (q.items.map Item.write).filter fun v => !decide (v.call.Same k) := by
  rw [others, without, List.filter_map]
  rfl

end Queue

namespace Tracks
variable {start : CacheSettings} {begun deadline : Nat} {ws : List Write} {q : Queue}

theorem empty {start : CacheSettings} (h : start.enabled = true) (clock : Clock) (deadline : Nat) :
    Tracks start clock.now deadline [] ⟨[], start, clock⟩ where
  settings := rfl
  enabled := h
  begun := Nat.le_refl _
  fresh _ hi := absurd hi List.not_mem_nil
  held := ⟨[], rfl, fun h => absurd rfl h⟩

theorem nodup (h : Tracks start begun deadline ws q) : (q.items.map (·.call.key)).Nodup := by
  obtain ⟨dropped, hlast, -⟩ := h.held
  have hpair := (List.pairwise_append.mp (hlast ▸ pairwise_lastWrites ws)).2.1
  rw [List.pairwise_map] at hpair
  refine List.pairwise_map.mpr (hpair.imp fun hij hkey => ?_)
  exact hij (Call.key_eq_iff.mp hkey)

theorem withClock (h : Tracks start begun deadline ws q) {clock : Clock} (hclock : q.clock.Precedes clock) :
    Tracks start begun deadline ws { q with clock := clock } where
  settings := h.settings
  enabled := h.enabled
  begun := Nat.le_trans h.begun hclock.now
  fresh := h.fresh
  held := h.held

theorem get (h : Tracks start begun deadline ws q) (hnow : q.clock.look.now ≤ deadline) (k : Call) :
    ∃ clock, q.clock.Precedes clock ∧ q.get k = ((q.find? k).map (·.result), { q with clock := clock }) := by
  have hon : q.settings.enabled = true := h.settings ▸ h.enabled
  rw [Queue.get, hon]
  cases hf : q.find? k with
  | none => exact ⟨q.clock, .refl _, rfl⟩
  | some i =>
    have hfresh := h.fresh i (List.mem_of_find?_eq_some hf)
    have hexp : i.expired q.clock.look.now = false := by
      rw [Item.expired, decide_eq_false_iff_not]
      omega
    refine ⟨q.clock.look, q.clock.precedes_look, ?_⟩
    simp [hexp, Queue.look]

theorem set (h : Tracks start begun deadline ws q) (hpos : 0 < start.capacity) (k : Call) (result : Json)
    {ttl : Option Nat} (httl : deadline - begun < ttl.getD start.ttl) :
    Tracks start begun deadline (ws ++ [⟨k, result⟩]) (q.set k result ttl) := by
  obtain ⟨dropped, hlast, hfull⟩ := h.held
  have hone := Queue.length_others h.nodup k
  rw [Queue.set_eq (h.settings ▸ h.enabled) (h.settings ▸ hpos), h.settings]
  have hlater := Nat.le_trans h.begun q.clock.now_le_look
  refine ⟨h.settings, h.enabled, hlater, fun i hi => ?_, ?_⟩
  · rcases List.mem_append.mp hi with hi | hi
    · exact h.fresh i (List.mem_filter.mp (List.mem_of_mem_drop hi)).1
    · rw [List.mem_singleton.mp hi]
      exact Nat.lt_of_le_of_lt (Nat.sub_le_sub_left hlater _) httl
  · -- what is dropped now is what was, without the call, and then the front of the others
    generalize hn : (q.others k).length - (start.capacity - 1) = n
    refine ⟨(dropped.filter fun v => !decide (v.call.Same k)) ++ ((q.others k).take n).map Item.write, ?_,
      fun hne => ?_⟩
    · have hsplit : (q.others k).map Item.write =
          ((q.others k).take n).map Item.write ++ ((q.others k).drop n).map Item.write := by
        rw [← List.map_append, List.take_append_drop]
      rw [lastWrites_append, hlast, List.filter_append, ← Queue.map_write_others, hsplit]
      simp only [List.map_append, List.append_assoc]
      rfl
    · have hlen : start.capacity - 1 ≤ (q.others k).length := by
        by_cases hd : dropped = []
        · have hn' : n ≠ 0 := by
            rintro rfl
            simp [hd] at hne
          omega
        · have := hfull hd
          omega
      simp only [List.length_append, List.length_drop, List.length_singleton]
      omega

theorem answer {r : Request ε} (h : Tracks start begun deadline ws q) (hnow : q.clock.look.now ≤ deadline)
    (hpos : 0 < start.capacity) (httl : deadline - begun < start.ttl) (hr : r.Lasting (deadline - begun)) :
    Tracks start begun deadline (ws ++ (r.write? fun k => (q.get k).1).toList) (q.answer r).2 := by
  cases r with
  | get k =>
    obtain ⟨clock, hclock, hget⟩ := h.get hnow k
    simpa [Queue.answer, Request.write?, hget] using h.withClock hclock
  | set k result ttl =>
    refine h.set hpos k result ?_
    cases ttl with
    | none => exact httl
    | some t => exact hr t rfl
  | getOrCompute k computed =>
    obtain ⟨clock, hclock, hget⟩ := h.get hnow k
    have hafter := h.withClock hclock
    cases hf : q.find? k with
    | some i => cases computed <;> simpa [Queue.answer, Request.write?, hget, hf] using hafter
    | none =>
      cases computed with
      | error e => simpa [Queue.answer, Request.write?, hget, hf] using hafter
      | ok result =>
        have hset : Tracks start begun deadline (ws ++ [⟨k, result⟩])
            (Queue.set { q with clock := clock } k result none) := hafter.set hpos k result httl
        simpa [Queue.answer, Request.write?, hget, hf] using hset
  | look => simpa [Queue.answer, Request.write?, Queue.look] using h.withClock q.clock.precedes_look
  | wait nanoseconds =>
    simpa [Queue.answer, Request.write?, Queue.wait] using h.withClock (q.clock.precedes_wait nanoseconds)
  | _ => exact absurd hr id

/-! ## What a lookup finds -/

theorem get_eq_some_iff (h : Tracks start begun deadline ws q) (hnow : q.clock.look.now ≤ deadline) (k : Call)
    (result : Json) :
    (q.get k).1 = some result ↔ ∃ w ∈ q.items.map Item.write, w.call.Same k ∧ w.result = result := by
  obtain ⟨clock, -, hget⟩ := h.get hnow k
  rw [hget, Option.map_eq_some_iff]
  constructor
  · rintro ⟨i, hi, rfl⟩
    have hik : i.call.Same k := by simpa using List.find?_some hi
    exact ⟨i.write, List.mem_map_of_mem (List.mem_of_find?_eq_some hi), hik, rfl⟩
  · rintro ⟨w, hw, hsame, rfl⟩
    obtain ⟨i, hi, rfl⟩ := List.mem_map.mp hw
    obtain ⟨j, hj⟩ := Option.isSome_iff_exists.mp
      (List.find?_isSome.mpr ⟨i, hi, decide_eq_true hsame⟩ : (q.find? k).isSome = true)
    have hjk : j.call.Same k := by simpa using List.find?_some hj
    have hij : j = i := List.inj_on_of_nodup_map h.nodup (List.mem_of_find?_eq_some hj) hi
      (Call.key_eq_iff.mpr (hjk.trans hsame.symm))
    exact ⟨j, hj, hij ▸ rfl⟩

theorem mem_items_iff (h : Tracks start begun deadline ws q) (hroom : q.items.length ≤ start.capacity) (w : Write) :
    w ∈ q.items.map Item.write ↔ ∃ later, w :: later <:+ lastWrites ws ∧ later.length < start.capacity := by
  obtain ⟨dropped, hlast, hfull⟩ := h.held
  rw [hlast]
  constructor
  · intro hw
    obtain ⟨front, later, hsplit⟩ := List.append_of_mem hw
    have hlen := congrArg List.length hsplit
    simp only [List.length_map, List.length_append, List.length_cons] at hlen
    exact ⟨later, hsplit ▸ (List.suffix_append front _).trans (List.suffix_append dropped _), by omega⟩
  · rintro ⟨later, hs, hlen⟩
    by_cases hd : dropped = []
    · rw [hd, List.nil_append] at hs
      exact hs.subset (List.mem_cons_self ..)
    · have hle : (w :: later).length ≤ (q.items.map Item.write).length := by
        rw [List.length_map, hfull hd]
        exact hlen
      exact (List.suffix_of_suffix_length_le hs (List.suffix_append dropped _) hle).subset (List.mem_cons_self ..)

theorem survives_iff (h : Tracks start begun deadline ws q) (hnow : q.clock.look.now ≤ deadline)
    (hroom : q.items.length ≤ start.capacity) (k : Call) (result : Json) :
    (q.get k).1 = some result ↔ Survives start.capacity ws k result := by
  simp only [h.get_eq_some_iff hnow, h.mem_items_iff hroom, suffix_lastWrites_iff]
  constructor
  · rintro ⟨w, ⟨_, ⟨after, hs, hafter, rfl⟩, hlen⟩, hsame, hresult⟩
    exact ⟨w, after, hs, hsame, hresult, fun v hv hvk => hafter v hv (hsame.trans hvk.symm), hlen⟩
  · rintro ⟨w, after, hs, hsame, hresult, hafter, hlen⟩
    exact ⟨w, ⟨_, ⟨after, hs, fun v hv hwv => hafter v hv (hwv.symm.trans hsame), rfl⟩, hlen⟩, hsame, hresult⟩

/-- A lookup that writes nothing takes time and leaves all else as it is. -/
theorem answer_eq (h : Tracks start begun deadline ws q) (hnow : q.clock.look.now ≤ deadline) {r : Request ε}
    (hr : r.isLookup = true) (hw : r.write? (fun k => (q.get k).1) = none) :
    ∃ clock, (q.answer r).2 = { q with clock := clock } := by
  cases r with
  | get k =>
    obtain ⟨clock, -, hget⟩ := h.get hnow k
    exact ⟨clock, congrArg Prod.snd hget⟩
  | getOrCompute k computed =>
    obtain ⟨clock, -, hget⟩ := h.get hnow k
    refine ⟨clock, ?_⟩
    cases hf : q.find? k with
    | some i => simp [Queue.answer, hget, hf]
    | none =>
      cases computed with
      | error e => simp [Queue.answer, hget, hf]
      | ok result => simp [Request.write?, hget, hf] at hw
  | _ => cases hr

end Tracks

/-! ## Runs -/

theorem Refines.found_eq {c : Cache} {q : Queue} (h : Refines c q) : c.found = fun k => (q.get k).1 :=
  funext fun k => (h.get k).1

theorem Tracks.answers {start : CacheSettings} {begun deadline : Nat} {ws : List Write} {c : Cache} {q : Queue}
    {requests : List (Request ε)} (h : Tracks start begun deadline ws q) (href : Refines c q)
    (hpos : 0 < start.capacity) (httl : deadline - begun < start.ttl)
    (hend : (FieldBridge.answers Cache.answer c requests).2.clock.look.now ≤ deadline)
    (hr : ∀ r ∈ requests, r.Lasting (deadline - begun)) :
    Tracks start begun deadline (ws ++ c.writes requests) (FieldBridge.answers Queue.answer q requests).2 := by
  induction requests generalizing ws c q with
  | nil => simpa [Cache.writes, FieldBridge.answers] using h
  | cons r requests ih =>
    have hnow : q.clock.look.now ≤ deadline := by
      rw [← href.clock]
      exact Nat.le_trans (c.precedes_answers (r :: requests)).next hend
    have hstep := h.answer hnow hpos httl (hr r (List.mem_cons_self ..))
    have hrest := ih hstep (href.answer r).2 hend fun r' hr' => hr r' (List.mem_cons_of_mem _ hr')
    rwa [Cache.writes, href.found_eq, ← List.append_assoc]

/-- **What is still there.** In a run of writes and lookups in which no lifetime runs out, a call is
answered from the cache exactly when it was written and fewer other calls than the capacity were
written after that, and the answer is what was written last. -/
theorem run_remembers {settings : CacheSettings} (hpos : 0 < settings.capacity) (hon : settings.enabled = true)
    {clock : Clock} {requests : List (Request ε)}
    (httl : (Cache.empty settings clock).duration requests < settings.ttl)
    (hr : ∀ r ∈ requests, r.Lasting ((Cache.empty settings clock).duration requests)) :
    Remembers settings.capacity ((Cache.empty settings clock).writes requests)
      (answers Cache.answer (.empty settings clock) requests).2 := by
  have href := ((Refines.empty hpos clock).answers requests).2
  rw [Cache.duration] at httl hr
  have hnow := Nat.le_of_eq (congrArg (·.look.now) href.clock).symm
  have htracks := (Tracks.empty hon clock _).answers (Refines.empty hpos clock) hpos httl
    (Nat.le_refl _) hr
  rw [List.nil_append] at htracks
  have hroom := href.bounded
  rw [htracks.settings] at hroom
  refine ⟨fun k result => ?_, fun r hlookup hwrite clock later => ?_⟩
  · rw [href.found_eq, htracks.survives_iff hnow hroom]
  · rw [href.found_eq] at hwrite
    obtain ⟨taken, hsame⟩ := htracks.answer_eq hnow hlookup hwrite
    have hafter := (href.answer r).2
    rw [hsame] at hafter
    rw [((hafter.withClock clock).answers later).1, ((href.withClock clock).answers later).1]

/-- A result that is written anew outlives one that was written after it at first. -/
theorem run_remembers_rewritten :
    let settings : CacheSettings := ⟨2, 1000, true⟩
    let clock : Clock := { pace := fun _ => 10 }
    let call (s : String) : Call := ⟨"upper", .string s, .empty⟩
    let requests : List (Request Failure) :=
      [.set (call "a") (.string "A") none, .getOrCompute (call "b") (.ok (.string "B")), .wait 300, .look,
        .set (call "a") (.string "A") (some 500), .get (call "b"), .getOrCompute (call "c") (.ok (.string "C")),
        .getOrCompute (call "d") (.error (.rejected "no text"))]
    0 < settings.capacity ∧ settings.enabled = true ∧
      (Cache.empty settings clock).duration requests < settings.ttl ∧
      (∀ r ∈ requests, r.Lasting ((Cache.empty settings clock).duration requests)) ∧
      Remembers settings.capacity ((Cache.empty settings clock).writes requests)
        (answers Cache.answer (.empty settings clock) requests).2 := by
  intro settings clock call requests
  have hpos : 0 < settings.capacity := by decide
  have hduration : (Cache.empty settings clock).duration requests = 370 := by
    decide +kernel
  have httl : (Cache.empty settings clock).duration requests < settings.ttl := by
    rw [hduration]
    decide
  have hr : ∀ r ∈ requests, r.Lasting ((Cache.empty settings clock).duration requests) := by
    rw [hduration]
    simp [requests, Request.Lasting]
  exact ⟨hpos, rfl, httl, hr, run_remembers hpos rfl httl hr⟩

end FieldBridge
