/-!
# White space

The characters of the Unicode property `White_Space`, and texts without it at
their ends. Every place that trims or skips blanks uses this one class.
-/

namespace FieldBridge.Text

def isBlank (c : Char) : Bool :=
  let n := c.toNat
  (9 ≤ n && n ≤ 13) || n == 0x20 || n == 0x85 || n == 0xA0 || n == 0x1680 || (0x2000 ≤ n && n ≤ 0x200A) ||
    n == 0x2028 || n == 0x2029 || n == 0x202F || n == 0x205F || n == 0x3000

/-- Both ends without their blanks. -/
def trimmed (cs : List Char) : List Char :=
  ((cs.dropWhile isBlank).reverse.dropWhile isBlank).reverse

def trimmedEnd (cs : List Char) : List Char :=
  (cs.reverse.dropWhile isBlank).reverse

def trim (s : String) : String := String.ofList (trimmed s.toList)

def trimEnd (s : String) : String := String.ofList (trimmedEnd s.toList)

def isBlankText (s : String) : Bool := s.toList.all isBlank

end FieldBridge.Text
