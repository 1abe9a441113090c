/-!
# Natural numbers in texts

The value of decimal digits, and numbers of 64 bits, which may have a plus sign.
-/

namespace FieldBridge.Text

def digitValue (c : Char) : Nat := c.toNat - '0'.toNat

/-- The value of decimal digits, the most significant first. -/
def ofDigits (ds : List Char) : Nat := ds.foldl (fun n c => 10 * n + digitValue c) 0

def withoutPlus : List Char → List Char
  | '+' :: ds => ds
  | ds => ds

def natural? (s : String) : Option Nat :=
  let ds := withoutPlus s.toList
  let n := ofDigits ds
  if !ds.isEmpty && ds.all Char.isDigit && n < 0x10000000000000000 then some n else none

end FieldBridge.Text
