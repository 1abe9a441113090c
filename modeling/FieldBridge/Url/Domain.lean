import FieldBridge.Text.Split

/-!
# Domain names

A domain name may hold characters of all scripts. Characters are first mapped (case,
full width forms, the ideographic full stops) or dropped, and each label is then
checked: no character that a name cannot hold, no combining mark at the start, joiners
only after a virama, and no mixture of writing directions. Labels that begin with
`xn--` hold such a label in an encoded form.
-/

namespace FieldBridge.Url

def inRanges (table : List (Nat × Nat)) (c : Char) : Bool :=
  table.any fun r => r.1 ≤ c.toNat && c.toNat ≤ r.2

/-- Characters of the basic block that no host has. -/
def isForbidden (c : Char) : Bool :=
  c.toNat ≤ 0x20 || c.toNat == 0x7F || "%#/:<>?@[\\]^|".toList.contains c

/-- Characters that leave no trace in a name. -/
def ignoredTable : List (Nat × Nat) :=
  [(0xAD, 0xAD), (0x34F, 0x34F), (0x180B, 0x180D), (0x180F, 0x180F), (0x200B, 0x200B), (0x2060, 0x2060),
    (0x2064, 0x2064), (0xFE00, 0xFE0F), (0xFEFF, 0xFEFF), (0x1BCA0, 0x1BCA3), (0xE0100, 0xE01EF)]

/-- Characters that a name cannot hold: controls, separators, private characters, and those
that stand for a blank or for a forbidden character. -/
def refusedTable : List (Nat × Nat) :=
  [(0x80, 0xA0), (0xA8, 0xA8), (0xAF, 0xAF), (0xB4, 0xB4), (0xB8, 0xB8), (0x2D8, 0x2DD), (0x37A, 0x37A),
    (0x384, 0x385), (0x600, 0x605), (0x61C, 0x61C), (0x6DD, 0x6DD), (0x70F, 0x70F), (0x890, 0x891),
    (0x8E2, 0x8E2), (0x115F, 0x1160), (0x1680, 0x1680), (0x17B4, 0x17B5), (0x180E, 0x180E), (0x1FBD, 0x1FBD),
    (0x1FBF, 0x1FC1), (0x1FCD, 0x1FCF), (0x1FDD, 0x1FDF), (0x1FED, 0x1FEE), (0x1FFD, 0x1FFE), (0x2000, 0x200A),
    (0x200E, 0x200F), (0x2017, 0x2017), (0x2024, 0x2026), (0x2028, 0x202F), (0x203E, 0x203E), (0x2047, 0x2049),
    (0x205F, 0x205F), (0x2061, 0x2063), (0x2065, 0x206F), (0x2100, 0x2101), (0x2105, 0x2106), (0x2488, 0x249B),
    (0x2A74, 0x2A74), (0x2FF0, 0x2FFB), (0x3000, 0x3000), (0x309B, 0x309C), (0x3164, 0x3164), (0x33C2, 0x33C2),
    (0x33C7, 0x33C7), (0x33D8, 0x33D8), (0xD800, 0xF8FF), (0xFC5E, 0xFC63), (0xFDD0, 0xFDEF), (0xFDFA, 0xFDFB),
    (0xFE13, 0xFE13), (0xFE16, 0xFE16), (0xFE19, 0xFE19), (0xFE30, 0xFE30), (0xFE47, 0xFE4C), (0xFE52, 0xFE52),
    (0xFE55, 0xFE56), (0xFE5F, 0xFE5F), (0xFE64, 0xFE65), (0xFE68, 0xFE68), (0xFE6A, 0xFE6B), (0xFFA0, 0xFFA0),
    (0xFFE3, 0xFFE3), (0xFFF0, 0xFFFF), (0x110BD, 0x110BD), (0x110CD, 0x110CD), (0x13430, 0x13438),
    (0x1D173, 0x1D17A), (0x1F100, 0x1F100), (0x1FFFE, 0x1FFFF), (0x2FFFE, 0x2FFFF), (0x3FFFE, 0xE00FF),
    (0xE01F0, 0x10FFFF)]

/-- Combining marks of the scripts in common use. -/
def markTable : List (Nat × Nat) :=
  [(0x300, 0x36F), (0x483, 0x489), (0x591, 0x5BD), (0x5BF, 0x5BF), (0x5C1, 0x5C2), (0x5C4, 0x5C5), (0x5C7, 0x5C7),
    (0x610, 0x61A), (0x64B, 0x65F), (0x670, 0x670), (0x6D6, 0x6DC), (0x6DF, 0x6E4), (0x6E7, 0x6E8), (0x6EA, 0x6ED),
    (0x711, 0x711), (0x730, 0x74A), (0x7A6, 0x7B0), (0x7EB, 0x7F3), (0x816, 0x819), (0x81B, 0x823), (0x825, 0x827),
    (0x829, 0x82D), (0x859, 0x85B), (0x8CA, 0x8E1), (0x8E3, 0x903), (0x93A, 0x93C), (0x93E, 0x94F), (0x951, 0x957),
    (0x962, 0x963), (0x981, 0x983), (0x9BC, 0x9BC), (0x9BE, 0x9CD), (0xA01, 0xA03), (0xA3C, 0xA51), (0xA70, 0xA71),
    (0xA81, 0xA83), (0xABC, 0xABC), (0xABE, 0xACD), (0xB01, 0xB03), (0xB3C, 0xB3C), (0xB3E, 0xB57), (0xB82, 0xB82),
    (0xBBE, 0xBCD), (0xC00, 0xC04), (0xC3C, 0xC3C), (0xC3E, 0xC56), (0xC81, 0xC83), (0xCBC, 0xCBC), (0xCBE, 0xCCD),
    (0xD00, 0xD03), (0xD3B, 0xD3C), (0xD3E, 0xD4D), (0xD81, 0xD83), (0xDCA, 0xDDF), (0xE31, 0xE31), (0xE34, 0xE3A),
    (0xE47, 0xE4E), (0xEB1, 0xEB1), (0xEB4, 0xEBC), (0xEC8, 0xECD), (0xF18, 0xF19), (0xF71, 0xF84), (0xF86, 0xF87),
    (0xF8D, 0xFBC), (0x102B, 0x103E), (0x1056, 0x1059), (0x135D, 0x135F), (0x17B6, 0x17D3), (0x1AB0, 0x1ACE),
    (0x1B00, 0x1B04), (0x1B34, 0x1B44), (0x1DC0, 0x1DFF), (0x20D0, 0x20F0), (0x2DE0, 0x2DFF), (0x302A, 0x302F),
    (0x3099, 0x309A), (0xA66F, 0xA672), (0xA802, 0xA802), (0xA806, 0xA806), (0xFB1E, 0xFB1E), (0xFE20, 0xFE2F)]

/-- The marks after which a joiner may stand. -/
def viramas : List Nat :=
  [0x94D, 0x9CD, 0xA4D, 0xACD, 0xB4D, 0xBCD, 0xC4D, 0xCCD, 0xD4D, 0xDCA, 0xE3A, 0xF84, 0x1039, 0x103A, 0x17D2]

/-- Letters of the scripts that are written from right to left. -/
def rightToLeftTable : List (Nat × Nat) :=
  [(0x5BE, 0x5BE), (0x5C0, 0x5C0), (0x5C3, 0x5C3), (0x5C6, 0x5C6), (0x5D0, 0x5F4), (0x608, 0x608), (0x60B, 0x60B),
    (0x60D, 0x60D), (0x61B, 0x64A), (0x66D, 0x66F), (0x671, 0x6D5), (0x6E5, 0x6E6), (0x6EE, 0x6EF), (0x6FA, 0x710),
    (0x712, 0x72F), (0x74D, 0x7A5), (0x7B1, 0x7EA), (0x7F4, 0x7F5), (0x7FA, 0x815), (0x840, 0x858), (0x860, 0x8C9),
    (0xFB1D, 0xFB1D), (0xFB1F, 0xFB28), (0xFB2A, 0xFDCF), (0xFDF0, 0xFDFC), (0xFE70, 0xFEFC), (0x10800, 0x10FFF),
    (0x1E800, 0x1EFFF)]

def isArabicNumber (c : Char) : Bool := inRanges [(0x660, 0x669), (0x66B, 0x66C)] c

def isEuropeanNumber (c : Char) : Bool := c.isDigit || inRanges [(0x6F0, 0x6F9)] c

def isRightToLeft (c : Char) : Bool := inRanges rightToLeftTable c

def isMark (c : Char) : Bool := inRanges markTable c

def isJoiner (c : Char) : Bool := c == '\u200c' || c == '\u200d'

/-- A letter that is written from left to right. -/
def isLeftToRight (c : Char) : Bool :=
  c.isAlpha || (0xAA ≤ c.toNat && !isRightToLeft c && !isArabicNumber c && !isEuropeanNumber c && !isMark c &&
    !isJoiner c)

/-- A character as it stands in a name; nothing for one that is dropped. -/
def mapped (c : Char) : Option Char :=
  let n := c.toNat
  if inRanges ignoredTable c then none
  else if n == 0x3002 || n == 0xFF61 then some '.'
  else if 0xFF01 ≤ n && n ≤ 0xFF5E then some (Char.ofNat (n - 0xFEE0)).toLower
  else some c.toLower

/-! ## Encoded labels -/

def threshold (k bias : Nat) : Nat := if k ≤ bias then 1 else if bias + 26 ≤ k then 26 else k - bias

/-- Divides by 35 until the rest is small, counting the steps by 36. -/
def adaptLoop (delta k : Nat) : Nat × Nat :=
  if h : 455 < delta then adaptLoop (delta / 35) (k + 36) else (delta, k)
termination_by delta
decreasing_by exact Nat.div_lt_self (by omega) (by omega)

def adapt (delta count : Nat) (first : Bool) : Nat :=
  let delta := if first then delta / 700 else delta / 2
  let (delta, k) := adaptLoop (delta + delta / count) 0
  k + 36 * delta / (delta + 38)

def base36Value? (c : Char) : Option Nat :=
  if 'a' ≤ c ∧ c ≤ 'z' then some (c.toNat - 97) else if c.isDigit then some (c.toNat - 22) else none

/-- One number of variable length, added to `i`. -/
def decodeNumber (bias : Nat) : Nat → Nat → Nat → List Char → Option (Nat × List Char)
  | _, _, _, [] => none
  | k, w, i, c :: cs =>
    match base36Value? c with
    | none => none
    | some d =>
      let t := threshold k bias
      if d < t then some (i + d * w, cs) else decodeNumber bias (k + 36) (w * (36 - t)) (i + d * w) cs

def decodeFrom : Nat → Nat → Nat → Nat → List Char → List Char → Option (List Char)
  | _, _, _, _, out, [] => some out
  | 0, _, _, _, _, _ :: _ => none
  | fuel + 1, n, i, bias, out, cs =>
    match decodeNumber bias 36 1 i cs with
    | none => none
    | some (j, rest) =>
      let count := out.length + 1
      let n := n + j / count
      if 0x10FFFF < n || (0xD800 ≤ n && n < 0xE000) then none
      else
        let place := j % count
        decodeFrom fuel n (place + 1) (adapt (j - i) count (i == 0))
          (out.take place ++ Char.ofNat n :: out.drop place) rest

/-- The label that the part after `xn--` holds. -/
def decodeLabel? (cs : List Char) : Option (List Char) :=
  let tail := (cs.reverse.takeWhile (· != '-')).reverse
  let front := cs.take (cs.length - tail.length - 1)
  decodeFrom cs.length 128 0 72 front tail

/-! ## Labels -/

/-- Joiners stand only after a virama. -/
def joinersFit : List Char → Bool
  | [] => true
  | [_] => true
  | a :: b :: rest => (!isJoiner b || viramas.contains a.toNat) && joinersFit (b :: rest)

def isLabel (cs : List Char) : Bool :=
  cs.all (fun c => !inRanges refusedTable c) && !((cs.head?.map fun c => isMark c || isJoiner c).getD false) &&
    joinersFit cs

/-- The characters of a label in their own script, if it is one. -/
def label? (cs : List Char) : Option (List Char) :=
  match cs with
  | 'x' :: 'n' :: '-' :: '-' :: rest =>
    match decodeLabel? rest with
    | none => none
    | some l =>
      if l.all (fun c => c.toNat < 128) || !isLabel l || l.any (fun c => mapped c != some c) then none else some l
  | _ => if cs.all (fun c => c.toNat < 128) || isLabel cs then some cs else none

/-- A label of one direction, in a name with labels that run from right to left. -/
def directionFits (cs : List Char) : Bool :=
  let body := (cs.reverse.dropWhile isMark).reverse
  match cs with
  | [] => true
  | c :: _ =>
    if isRightToLeft c then
      !cs.any isLeftToRight && !(cs.any isArabicNumber && cs.any isEuropeanNumber) &&
        (body.getLast?.map fun d => isRightToLeft d || isArabicNumber d || isEuropeanNumber d).getD false
    else
      isLeftToRight c && !cs.any isRightToLeft && !cs.any isArabicNumber &&
        (body.getLast?.map fun d => isLeftToRight d || isEuropeanNumber d).getD false

/-- The name in its mapped form, if it is a domain name. -/
def domain? (host : List Char) : Option (List Char) :=
  let name := host.filterMap mapped
  if name.any isForbidden then none
  else
    match (Text.pieces ['.'] name).mapM label? with
    | none => none
    | some labels =>
      let mixed := labels.any fun l => l.any fun c => isRightToLeft c || isArabicNumber c
      if mixed && !labels.all directionFits then none else some name

end FieldBridge.Url
