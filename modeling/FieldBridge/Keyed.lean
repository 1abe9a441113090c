/-!
# Keyed lists

Lists of pairs of a text key and a value, kept sorted by key with no key twice. Keys
are ordered by code point, which is also the byte order of their UTF-8 form.
-/

namespace FieldBridge

abbrev Keyed (α : Type) := List (String × α)

namespace Keyed

variable {α : Type}

def find? (key : String) : Keyed α → Option α
  | [] => none
  | (k, v) :: rest => if k = key then some v else find? key rest

/-- Puts a value under a key, in place of the value it had. -/
def insert (key : String) (value : α) : Keyed α → Keyed α
  | [] => [(key, value)]
  | (k, v) :: rest =>
    if key = k then (key, value) :: rest
    else if key < k then (key, value) :: (k, v) :: rest
    else (k, v) :: insert key value rest

/-- Puts a value under a key that has none. -/
def insertAbsent (key : String) (value : α) : Keyed α → Keyed α
  | [] => [(key, value)]
  | (k, v) :: rest =>
    if key = k then (k, v) :: rest
    else if key < k then (key, value) :: (k, v) :: rest
    else (k, v) :: insertAbsent key value rest

/-- Of several values for one key the last is kept. -/
def ofList (pairs : List (String × α)) : Keyed α :=
  pairs.foldl (fun m p => m.insert p.1 p.2) []

def contains (key : String) (m : Keyed α) : Bool := (m.find? key).isSome

end Keyed

end FieldBridge
