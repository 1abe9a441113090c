/-!
# Clocks

A clock shows nanoseconds and never goes back. How much time goes by before each look at it
belongs to the clock: whatever is done by the same clock takes the same course of time, and
the times that are measured are read off it.
-/

namespace FieldBridge

structure Clock where
  /-- what the clock showed at the last look -/
  now : Nat := 0
  /-- how often the clock was looked at -/
  looks : Nat := 0
  /-- the time that goes by before each look, the first of which has number 0 -/
  pace : Nat → Nat := fun _ => 0
  /-- how much of that time has gone by when the element at a place is seen, where several of them
  are looked at in one go and in an order of their own -/
  glance : Nat → Nat → Nat := fun _ _ => 0

namespace Clock

def look (k : Clock) : Clock := { k with now := k.now + k.pace k.looks, looks := k.looks + 1 }

/-- Lets time go by. -/
def wait (k : Clock) (nanoseconds : Nat) : Clock := { k with now := k.now + nanoseconds }

/-- What the clock shows when the element at a place is seen. -/
def moment (k : Clock) (place : Nat) : Nat := k.now + min (k.glance k.looks place) (k.pace k.looks)

/-- The elements that pass a test when they are seen, of those that are looked at before the next
look is over. -/
def pick {α : Type} (p : Nat → α → Bool) (k : Clock) (as : List α) : List α := go 0 as
where
  go : Nat → List α → List α
    | _, [] => []
    | place, a :: as => if p (k.moment place) a then a :: go (place + 1) as else go (place + 1) as

end Clock

/-! ## Spans of time in nanoseconds -/

namespace Nanoseconds

def ofSeconds (seconds : Nat) : Nat := 1000000000 * seconds

def ofMilliseconds (milliseconds : Nat) : Nat := 1000000 * milliseconds

def wholeSeconds (nanoseconds : Nat) : Nat := nanoseconds / 1000000000

def wholeMilliseconds (nanoseconds : Nat) : Nat := nanoseconds / 1000000

/-- A span in milliseconds, made of its whole seconds and the rest. -/
def milliseconds (nanoseconds : Nat) : Float :=
  (Float.ofNat (wholeSeconds nanoseconds) + Float.ofNat (nanoseconds % 1000000000) / 1000000000.0) * 1000.0

end Nanoseconds

end FieldBridge
