import FieldBridge.Json.Printer
import FieldBridge.Yaml.Scalar

/-!
# Printing YAML

Lists and objects are blocks, a list under a key as deep as its key. A text is plain
where that is safe, quoted where it is not, and a literal block where it has several
lines.
-/

namespace FieldBridge.Yaml

/-- Floats are positional from `0.00001` to below `10 ^ 16`, and a positive exponent has no sign. -/
def floatStyle : Decimal.FloatStyle := ⟨-5, 15, false⟩

def isBreak (c : Char) : Bool :=
  let n := c.toNat
  n == 0x0A || n == 0x0D || n == 0x85 || n == 0x2028 || n == 0x2029

def isPrintable (c : Char) : Bool :=
  let n := c.toNat
  n == 0x0A || (0x20 ≤ n && n ≤ 0x7E) || (0xA0 ≤ n && n ≤ 0xFFFD && n != 0xFEFF) || 0x10000 ≤ n

/-! ## Styles of a text -/

inductive Style where
  | plain
  | single
  | double
  | literal
  deriving DecidableEq, Repr

/-- Whether two neighbouring characters are of two kinds. -/
def hasPair (p q : Char → Bool) (cs : List Char) : Bool := (cs.zip (cs.drop 1)).any fun (a, b) => p a && q b

def isSpace (c : Char) : Bool := c == ' '

/-- Characters that have a meaning at the start of a scalar. -/
def indicators : List Char :=
  ['#', ',', '[', ']', '\x7b', '\x7d', '&', '*', '!', '|', '>', '\'', '"', '%', '@', Char.ofNat 0x60]

/-- Whether the first characters of a plain scalar would mean something else. -/
def startsWithIndicator : List Char → Bool
  | '-' :: '-' :: '-' :: _ => true
  | '.' :: '.' :: '.' :: _ => true
  | c :: rest => indicators.contains c || (['?', ':', '-'].contains c && (rest.head?.map isSpace).getD true)
  | [] => true

def endsAtBlank (p : Char → Bool) (cs : List Char) : Bool :=
  (cs.head?.map p).getD false || (cs.getLast?.map p).getD false

def allowsDoubleOnly (cs : List Char) : Bool := !cs.all isPrintable || hasPair isSpace isBreak cs

def allowsPlain (cs : List Char) : Bool :=
  !(startsWithIndicator cs || endsAtBlank isSpace cs || cs.any isBreak || cs.getLast? == some ':' ||
    hasPair (· == ':') isSpace cs || hasPair isSpace (· == '#') cs || allowsDoubleOnly cs)

def allowsSingle (cs : List Char) : Bool := !(hasPair isBreak isSpace cs || allowsDoubleOnly cs)

def allowsLiteral (cs : List Char) : Bool := !((cs.getLast?.map isSpace).getD false || allowsDoubleOnly cs)

def styleOf (s : String) : Style :=
  let cs := s.toList
  if cs.contains '\n' then if allowsLiteral cs then .literal else .double
  else if allowsPlain cs && !isAmbiguous s then .plain
  else if allowsSingle cs then .single
  else .double

/-! ## Texts -/

def spaces (n : Nat) : List Char := List.replicate n ' '

/-- Characters with the lines after a break indented. -/
def indentLines (indent : Nat) : Bool → List Char → List Char
  | _, [] => []
  | afterBreak, c :: cs =>
    if isBreak c then c :: indentLines indent true cs
    else (if afterBreak then spaces indent else []) ++ c :: indentLines indent false cs

def singleQuoted (indent : Nat) (cs : List Char) : List Char :=
  let close := if (cs.getLast?.map isBreak).getD false then spaces indent ++ ['\''] else ['\'']
  '\'' :: indentLines indent false (cs.flatMap fun c => if c = '\'' then ['\'', '\''] else [c]) ++ close

/-- A number in hexadecimal with capital letters. -/
def hex (width n : Nat) : List Char :=
  let ds := (Nat.toDigits 16 n).map Char.toUpper
  List.replicate (width - ds.length) '0' ++ ds

/-- Characters with a short escape. -/
def shortEscapes : List (Nat × Char) :=
  [(0, '0'), (7, 'a'), (8, 'b'), (9, 't'), (0x0A, 'n'), (0x0B, 'v'), (0x0C, 'f'), (0x0D, 'r'), (0x1B, 'e'), (0x22, '"'),
    (0x5C, '\\'), (0x85, 'N'), (0x2028, 'L'), (0x2029, 'P')]

def escaped (c : Char) : List Char :=
  let n := c.toNat
  match shortEscapes.lookup n with
  | some e => ['\\', e]
  | none =>
    if isPrintable c then [c]
    else if n ≤ 0xFF then '\\' :: 'x' :: hex 2 n
    else if n ≤ 0xFFFF then '\\' :: 'u' :: hex 4 n
    else '\\' :: 'U' :: hex 8 n

def doubleQuoted (cs : List Char) : List Char := '"' :: cs.flatMap escaped ++ ['"']

/-- The header of a literal block: its indentation where the text starts with a blank, and
what becomes of its last line end. -/
def literalHeader (cs : List Char) : List Char :=
  let depth := if (cs.head?.map fun c => isSpace c || isBreak c).getD false then ['2'] else []
  let ending := match cs.reverse with
    | [c] => if isBreak c then ['+'] else ['-']
    | c :: d :: _ => if isBreak c then if isBreak d then ['+'] else [] else ['-']
    | [] => ['-']
  '|' :: depth ++ ending

def text (indent : Nat) (s : String) : List Char :=
  let cs := s.toList
  match styleOf s with
  | .plain => cs
  | .single => singleQuoted indent cs
  | .double => doubleQuoted cs
  | .literal => literalHeader cs ++ '\n' :: indentLines indent true cs

/-! ## Values -/

/-- Ends the line, unless a break has ended it. -/
def ended (cs : List Char) : List Char := if (cs.getLast?.map isBreak).getD false then cs else cs ++ ['\n']

/-- A key that fits on the line of its value. -/
def isSimpleKey (s : String) : Bool := s.utf8ByteSize ≤ 128 && !s.toList.any isBreak

/-- A value that takes no block of its own. -/
def flat (indent : Nat) : Json → List Char
  | .null => "null".toList
  | .bool b => (toString b).toList
  | .number (.int n _) => (toString n).toList
  | .number (.float x _) => (floatStyle.text x).toList
  | .string s => text indent s
  | .array _ => "[]".toList
  | .object _ => "\x7b\x7d".toList

mutual
/-- A value from a column on, with its line ends. -/
def node (column : Nat) : Json → List Char
  | .array (v :: rest) => '-' :: ' ' :: node (column + 2) v ++ items column rest
  | .object (m :: rest) => member column m ++ members column rest
  | .null => ended (flat column .null)
  | .bool b => ended (flat column (.bool b))
  | .number n => ended (flat column (.number n))
  | .string s => ended (flat column (.string s))
  | .array [] => ended (flat column (.array []))
  | .object [] => ended (flat column (.object []))
def items (column : Nat) : List Json → List Char
  | [] => []
  | v :: rest => spaces column ++ '-' :: ' ' :: node (column + 2) v ++ items column rest
def member (column : Nat) : String × Json → List Char
  | (k, v) =>
    if isSimpleKey k then text (column + 2) k ++ ':' :: afterKey column v
    else '?' :: ' ' :: ended (text (column + 2) k) ++ spaces column ++ ':' :: ' ' :: node (column + 2) v
def members (column : Nat) : List (String × Json) → List Char
  | [] => []
  | m :: rest => spaces column ++ member column m ++ members column rest
/-- What stands after the colon of a key. -/
def afterKey (column : Nat) : Json → List Char
  | .array (v :: rest) => '\n' :: spaces column ++ '-' :: ' ' :: node (column + 2) v ++ items column rest
  | .object (m :: rest) => '\n' :: spaces (column + 2) ++ member (column + 2) m ++ members (column + 2) rest
  | .null => ' ' :: ended (flat (column + 2) .null)
  | .bool b => ' ' :: ended (flat (column + 2) (.bool b))
  | .number n => ' ' :: ended (flat (column + 2) (.number n))
  | .string s => ' ' :: ended (flat (column + 2) (.string s))
  | .array [] => ' ' :: ended (flat (column + 2) (.array []))
  | .object [] => ' ' :: ended (flat (column + 2) (.object []))
end

/-- A document of one value. The lines of a text on its own are indented too. -/
def print (v : Json) : String :=
  String.ofList <| match v with
    | .string s => ended (text 2 s)
    | v => node 0 v

end FieldBridge.Yaml
