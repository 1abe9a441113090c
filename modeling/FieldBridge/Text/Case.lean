/-!
# Letter case

Lower case for the letters of the basic Latin and Latin-1 blocks. The words and
file endings that texts are compared with are written in these letters alone, and
no letter outside the two blocks has a single lower-case letter inside them that
such a word contains.
-/

namespace FieldBridge.Text

def lowerChar (c : Char) : Char :=
  let n := c.toNat
  if ('A' ≤ c ∧ c ≤ 'Z') ∨ (0xC0 ≤ n ∧ n ≤ 0xDE ∧ n ≠ 0xD7) then Char.ofNat (n + 32) else c

def lower (s : String) : String := String.ofList (s.toList.map lowerChar)

/-- Lower case for the letters A to Z only. -/
def lowerAscii (s : String) : String := String.ofList (s.toList.map Char.toLower)

end FieldBridge.Text
