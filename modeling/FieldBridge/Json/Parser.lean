import FieldBridge.Json.Basic
import FieldBridge.Decimal.Nearest

/-!
# Reading JSON

`Json.parse?` reads one value that takes up the whole text, in its written form.
At most 127 arrays and objects may be inside one another. The digits of a number
are taken as far as they fit in 64 bits, and a number with a point, an exponent or
more digits is that significand scaled by a power of ten in floating point.
-/

namespace FieldBridge

namespace Number

/-- The powers of ten that are floats. -/
def power (n : Nat) : Float := Float.ofScientific 1 false n

/-- A significand times a power of ten, each step rounded; nothing when it is too large. -/
def scale (x : Float) (e : Int) : Option Float :=
  if 308 < e then if x == 0.0 then some x else none
  else if 0 ≤ e then
    let y := x * power e.toNat
    if y.isFinite then some y else none
  else if -308 ≤ e then some (x / power (-e).toNat)
  else if x == 0.0 then some x
  else scale (x / power 308) (e + 308)
termination_by (-e).toNat

/-- Takes digits as long as the number they spell fits in 64 bits; gives the digits left over. -/
def significand (n : Nat) : List Char → Nat × List Char
  | [] => (n, [])
  | c :: cs =>
    let m := 10 * n + Text.digitValue c
    if m < 0x10000000000000000 then significand m cs else (n, c :: cs)

def scaled? (negative : Bool) (sig : Nat) (e : Int) : Option Number :=
  (scale (Float.ofNat sig) e).bind fun x => ofFloat? (if negative then -x else x)

/-- The exponent of a number, if it has one, and the text after it. -/
def exponentPart : List Char → Option (Int × List Char)
  | [] => some (0, [])
  | c :: cs =>
    if c = 'e' ∨ c = 'E' then
      let (negative, rest) := Decimal.takeSign cs
      let ds := rest.takeWhile Char.isDigit
      if ds.isEmpty then none
      else
        let n : Int := Text.ofDigits ds
        some (if negative then -n else n, rest.dropWhile Char.isDigit)
    else some (0, c :: cs)

/-- The rest of a number whose whole part is read. -/
def afterWhole (negative : Bool) (ds rest : List Char) : Option (Number × List Char) :=
  let (sig, left) := significand 0 ds
  match rest with
  | '.' :: more =>
    let fs := more.takeWhile Char.isDigit
    if fs.isEmpty then none
    else do
      let (sig, dropped) := significand sig fs
      let (e, rest) ← exponentPart (more.dropWhile Char.isDigit)
      let n ← scaled? negative sig (e + left.length - (fs.length - dropped.length : Nat))
      some (n, rest)
  | _ => do
    let (e, after) ← exponentPart rest
    let n ←
      if left.isEmpty && after.length == rest.length && !(negative && (sig == 0 || 0x8000000000000000 < sig)) then
        ofInt? (if negative then -(sig : Int) else sig)
      else scaled? negative sig (e + left.length)
    some (n, after)

/-- A number at the start of a text, and the text after it. -/
def parse (cs : List Char) : Option (Number × List Char) :=
  let (negative, cs) := match cs with
    | '-' :: more => (true, more)
    | _ => (false, cs)
  match cs with
  | '0' :: rest => if (rest.head?.map Char.isDigit).getD false then none else afterWhole negative ['0'] rest
  | c :: rest =>
    if c.isDigit then afterWhole negative (c :: rest.takeWhile Char.isDigit) (rest.dropWhile Char.isDigit) else none
  | [] => none

end Number

namespace Json

def isSpace (c : Char) : Bool := c == ' ' || c == '\n' || c == '\t' || c == '\r'

def skipSpace (cs : List Char) : List Char := cs.dropWhile isSpace

def hexValue? (c : Char) : Option Nat :=
  if '0' ≤ c ∧ c ≤ '9' then some (c.toNat - 48)
  else if 'a' ≤ c ∧ c ≤ 'f' then some (c.toNat - 87)
  else if 'A' ≤ c ∧ c ≤ 'F' then some (c.toNat - 55)
  else none

def hex4? (a b c d : Char) : Option Nat := do
  some ((((← hexValue? a) * 16 + (← hexValue? b)) * 16 + (← hexValue? c)) * 16 + (← hexValue? d))

/-- The character that a letter after a backslash stands for. -/
def simpleEscape? (c : Char) : Option Char :=
  match c with
  | '"' => some '"'
  | '\\' => some '\\'
  | '/' => some '/'
  | 'b' => some '\x08'
  | 'f' => some '\x0c'
  | 'n' => some '\n'
  | 'r' => some '\r'
  | 't' => some '\t'
  | _ => none

def isLeadingSurrogate (n : Nat) : Bool := 0xD800 ≤ n && n < 0xDC00

def isTrailingSurrogate (n : Nat) : Bool := 0xDC00 ≤ n && n < 0xE000

/-- The content of a string up to its closing quote, and the text after it. -/
def stringBody : List Char → Option (List Char × List Char)
  | [] => none
  | '"' :: rest => some ([], rest)
  | '\\' :: 'u' :: a :: b :: c :: d :: rest =>
    match hex4? a b c d with
    | none => none
    | some n =>
      if isLeadingSurrogate n then
        match rest with
        | '\\' :: 'u' :: a :: b :: c :: d :: more =>
          match hex4? a b c d with
          | none => none
          | some m =>
            if isTrailingSurrogate m then
              (stringBody more).map fun (s, t) =>
                (Char.ofNat (0x10000 + (n - 0xD800) * 0x400 + (m - 0xDC00)) :: s, t)
            else none
        | _ => none
      else if isTrailingSurrogate n then none
      else (stringBody rest).map fun (s, t) => (Char.ofNat n :: s, t)
  | '\\' :: c :: rest =>
    match simpleEscape? c with
    | none => none
    | some e => (stringBody rest).map fun (s, t) => (e :: s, t)
  | c :: rest =>
    if c.toNat < 0x20 ∨ c = '\\' then none else (stringBody rest).map fun (s, t) => (c :: s, t)

mutual
/-- A value at the start of a text; `depth` more containers may be opened. -/
def parseValue : Nat → Nat → List Char → Option (Json × List Char)
  | 0, _, _ => none
  | fuel + 1, depth, cs =>
    match skipSpace cs with
    | 'n' :: 'u' :: 'l' :: 'l' :: rest => some (null, rest)
    | 't' :: 'r' :: 'u' :: 'e' :: rest => some (bool true, rest)
    | 'f' :: 'a' :: 'l' :: 's' :: 'e' :: rest => some (bool false, rest)
    | '"' :: rest => (stringBody rest).map fun (s, t) => (string (String.ofList s), t)
    | '[' :: rest =>
      if depth = 0 then none
      else match skipSpace rest with
        | ']' :: after => some (array [], after)
        | _ => (parseItems fuel (depth - 1) rest).map fun (items, t) => (array items, t)
    | '\x7b' :: rest =>
      if depth = 0 then none
      else match skipSpace rest with
        | '\x7d' :: after => some (object [], after)
        | _ => (parseMembers fuel (depth - 1) rest).map fun (members, t) => (object members, t)
    | rest => (Number.parse rest).map fun (n, t) => (number n, t)
/-- One item or more and the closing bracket. -/
def parseItems : Nat → Nat → List Char → Option (List Json × List Char)
  | 0, _, _ => none
  | fuel + 1, depth, cs =>
    match parseValue fuel depth cs with
    | none => none
    | some (v, rest) =>
      match skipSpace rest with
      | ']' :: after => some ([v], after)
      | ',' :: more => (parseItems fuel depth more).map fun (items, t) => (v :: items, t)
      | _ => none
/-- One member or more and the closing brace. -/
def parseMembers : Nat → Nat → List Char → Option (List (String × Json) × List Char)
  | 0, _, _ => none
  | fuel + 1, depth, cs =>
    match skipSpace cs with
    | '"' :: rest =>
      match stringBody rest with
      | none => none
      | some (k, rest) =>
        match skipSpace rest with
        | ':' :: rest =>
          match parseValue fuel depth rest with
          | none => none
          | some (v, rest) =>
            match skipSpace rest with
            | '\x7d' :: after => some ([(String.ofList k, v)], after)
            | ',' :: more =>
              (parseMembers fuel depth more).map fun (members, t) => ((String.ofList k, v) :: members, t)
            | _ => none
        | _ => none
    | _ => none
end

/-- How many containers may be inside one another. -/
def maxDepth : Nat := 127

def parse? (s : String) : Option Json :=
  let cs := s.toList
  match parseValue (2 * cs.length + 2) maxDepth cs with
  | some (v, rest) => if (skipSpace rest).isEmpty then some v else none
  | none => none

/-- The value a text stands for. -/
def value? (s : String) : Option Json := (parse? s).map normalize

end Json

end FieldBridge
