import FieldBridge.Decimal.Nearest
import FieldBridge.Json.Parser
import FieldBridge.Toml.Tree

/-!
# Reading TOML

A text is read line by line: headers, and keys with their values. Values are texts in
four forms of quotes, whole numbers of 64 bits, floats, truth values, dates, arrays and
inline tables.
-/

namespace FieldBridge.Toml

def isGap (c : Char) : Bool := c == ' ' || c == '\t'

def skipGap (cs : List Char) : List Char := cs.dropWhile isGap

/-- Passes over blanks, line ends and comments. -/
def skipLines : Bool → List Char → List Char
  | _, [] => []
  | inComment, c :: cs =>
    if c = '\n' then skipLines false cs
    else if inComment || isGap c then skipLines inComment cs
    else if c = '#' then skipLines true cs
    else c :: cs

/-- The rest of a line, which is at most a comment. -/
def lineEnd? (cs : List Char) : Option (List Char) :=
  match skipGap cs with
  | [] => some []
  | '\n' :: rest => some rest
  | '#' :: rest => some ((rest.dropWhile (· != '\n')).drop 1)
  | _ => none

/-! ## Texts -/

def numbered (count : Nat) (cs : List Char) : Option (Char × List Char) := do
  let ds ← (cs.take count).mapM Json.hexValue?
  let n := ds.foldl (fun n d => 16 * n + d) 0
  if ds.length = count ∧ n.isValidChar then some (Char.ofNat n, cs.drop count) else none

/-- The character that an escape stands for. -/
def escape? : List Char → Option (Char × List Char)
  | 'b' :: rest => some ('\x08', rest)
  | 't' :: rest => some ('\t', rest)
  | 'n' :: rest => some ('\n', rest)
  | 'f' :: rest => some ('\x0c', rest)
  | 'r' :: rest => some ('\r', rest)
  | '"' :: rest => some ('"', rest)
  | '\\' :: rest => some ('\\', rest)
  | 'u' :: rest => numbered 4 rest
  | 'U' :: rest => numbered 8 rest
  | _ => none

/-- The characters of a text on one line, up to its quote. -/
def shortBody (quote : Char) : Nat → List Char → Option (List Char × List Char)
  | 0, _ => none
  | _, [] => none
  | fuel + 1, c :: cs =>
    if c = quote then some ([], cs)
    else if c = '\n' then none
    else do
      let (d, rest) ← if c = '\\' && quote == '"' then escape? cs else some (c, cs)
      let (more, after) ← shortBody quote fuel rest
      some (d :: more, after)

/-- The characters of a text of several lines, up to its three quotes. Two more quotes may stand
before those. A backslash at the end of a line takes the blanks and line ends after it away. -/
def longBody (quote : Char) : Nat → List Char → Option (List Char × List Char)
  | 0, _ => none
  | _, [] => none
  | fuel + 1, c :: cs =>
    if c = quote then
      let run := (c :: cs).takeWhile (· == quote)
      if run.length < 3 then (longBody quote fuel cs).map fun (more, after) => (c :: more, after)
      else some (List.replicate (min 2 (run.length - 3)) quote, (c :: cs).drop (min 5 run.length))
    else if c = '\\' && quote == '"' then
      match skipGap cs with
      | '\n' :: rest => longBody quote fuel (rest.dropWhile fun c => isGap c || c == '\n')
      | _ => do
        let (d, rest) ← escape? cs
        let (more, after) ← longBody quote fuel rest
        some (d :: more, after)
    else (longBody quote fuel cs).map fun (more, after) => (c :: more, after)

/-- A text in quotes of any form. -/
def quoted? (mayBeLong : Bool) (cs : List Char) : Option (List Char × List Char) :=
  match cs with
  | [] => none
  | q :: rest =>
    if q != '"' && q != '\'' then none
    else
      match rest with
      | q' :: q'' :: body =>
        if q' = q && q'' = q then
          if mayBeLong then longBody q (cs.length + 1) (if body.head? = some '\n' then body.drop 1 else body)
          else none
        else shortBody q (cs.length + 1) rest
      | _ => shortBody q (cs.length + 1) rest

/-! ## Keys -/

def isKeyChar (c : Char) : Bool := c.isAlphanum || c == '_' || c == '-'

def key? (cs : List Char) : Option (String × List Char) :=
  let bare := cs.takeWhile isKeyChar
  if bare.isEmpty then (quoted? false cs).map fun (k, rest) => (String.ofList k, rest)
  else some (String.ofList bare, cs.drop bare.length)

/-- Keys with points between them, and the text after the blanks behind them. -/
def path? : Nat → List Char → Option (List String × List Char)
  | 0, _ => none
  | fuel + 1, cs => do
    let (k, rest) ← key? (skipGap cs)
    match skipGap rest with
    | '.' :: more => (path? fuel more).map fun (ks, after) => (k :: ks, after)
    | after => some ([k], after)

/-! ## Numbers and dates -/

/-- Digits without the underscores between them. -/
def digits? (isDigit : Char → Bool) (cs : List Char) : Option (List Char) :=
  if cs.all (fun c => isDigit c || c == '_') && cs.any isDigit && cs.head? != some '_' && cs.getLast? != some '_' &&
      !(cs.zip (cs.drop 1)).contains ('_', '_') then
    some (cs.filter (· != '_'))
  else none

def inBase? (base : Nat) (cs : List Char) : Option Int :=
  let isDigit (c : Char) : Bool := ((Json.hexValue? c).filter (· < base)).isSome
  (digits? isDigit cs).map fun ds => ds.foldl (fun n c => base * n + (Json.hexValue? c).getD 0) 0

/-- Decimal digits of a whole part, which has no idle zero in front. -/
def whole? (cs : List Char) : Option (List Char) :=
  (digits? Char.isDigit cs).filter fun ds => ds.length = 1 || ds.head? != some '0'

def integer? (cs : List Char) : Option Int :=
  match cs with
  | '0' :: 'x' :: ds => inBase? 16 ds
  | '0' :: 'o' :: ds => inBase? 8 ds
  | '0' :: 'b' :: ds => inBase? 2 ds
  | _ =>
    let (negative, ds) := Decimal.takeSign cs
    (whole? ds).map fun ds => if negative then -(Text.ofDigits ds : Int) else Text.ofDigits ds

def isExponent (c : Char) : Bool := c == 'e' || c == 'E'

def float? (cs : List Char) : Option Scalar :=
  let (negative, ds) := Decimal.takeSign cs
  if ds = "inf".toList || ds = "nan".toList then some .notFinite
  else do
    let mantissa := ds.takeWhile (!isExponent ·)
    let whole ← whole? (mantissa.takeWhile (· != '.'))
    let fraction ← match mantissa.dropWhile (· != '.') with
      | [] => some []
      | _ :: fs => digits? Char.isDigit fs
    let exponent ← match ds.dropWhile (!isExponent ·) with
      | [] => some []
      | _ :: es => (digits? Char.isDigit (Decimal.takeSign es).2).map fun ds =>
        'e' :: (if (Decimal.takeSign es).1 then ['-'] else []) ++ ds
    let text := whole ++ (if fraction.isEmpty then [] else '.' :: fraction) ++ exponent
    let x ← Decimal.float? (String.ofList ((if negative then ['-'] else []) ++ text))
    (Number.ofFloat? x).map .number

/-- Some digits that spell a number between two bounds. -/
def field (count least most : Nat) (cs : List Char) : Option (List Char) :=
  let ds := cs.take count
  if ds.length = count && ds.all Char.isDigit && least ≤ Text.ofDigits ds && Text.ofDigits ds ≤ most then
    some (cs.drop count)
  else none

def mark (c : Char) (cs : List Char) : Option (List Char) := if cs.head? = some c then some (cs.drop 1) else none

def clock (cs : List Char) : Option (List Char) := do
  let cs ← field 2 0 23 cs
  let cs ← field 2 0 59 (← mark ':' cs)
  let cs ← field 2 0 60 (← mark ':' cs)
  match cs with
  | '.' :: fs => if (fs.head?.map Char.isDigit).getD false then some (fs.dropWhile Char.isDigit) else none
  | _ => some cs

def offset (cs : List Char) : Option (List Char) :=
  match cs with
  | 'Z' :: rest => some rest
  | 'z' :: rest => some rest
  | c :: rest =>
    if c = '+' || c = '-' then do
      let cs ← field 2 0 23 rest
      field 2 0 59 (← mark ':' cs)
    else some (c :: rest)
  | [] => some []

def day (cs : List Char) : Option (List Char) := do
  let cs ← field 4 0 9999 cs
  let cs ← field 2 1 12 (← mark '-' cs)
  field 2 1 31 (← mark '-' cs)

/-- A date, a time of day, or both, at the start of a text. -/
def moment? (cs : List Char) : Option (List Char) :=
  match day cs with
  | some rest =>
    match rest with
    | c :: more =>
      if c = 'T' || c = 't' then (clock more).bind offset
      else if c = ' ' && (more.head?.map Char.isDigit).getD false then (clock more).bind offset
      else some rest
    | [] => some []
  | none => clock cs

/-- An object whose members no record looks for. -/
def moment : Document := .object []

def isWordChar (c : Char) : Bool := isKeyChar c || c == '+' || c == '.'

/-- A truth value, a number or a date. -/
def word? (cs : List Char) : Option (Document × List Char) :=
  match moment? cs with
  | some rest => some (moment, rest)
  | none =>
    let word := cs.takeWhile isWordChar
    let found : Option Scalar :=
      if word = "true".toList then some (.bool true)
      else if word = "false".toList then some (.bool false)
      else
        match integer? word with
        | some n => if n < 0x8000000000000000 then (Number.ofInt? n).map .number else none
        | none => float? word
    found.map fun s => (.scalar s none, cs.drop word.length)

/-! ## Values -/

mutual
def value : Nat → List Char → Option (Document × List Char)
  | 0, _ => none
  | fuel + 1, cs =>
    match cs with
    | '[' :: rest => (items fuel rest).map fun (ds, after) => (.list ds true, after)
    | '\x7b' :: rest =>
      match skipGap rest with
      | '\x7d' :: after => some (.object [], after)
      | _ => (members fuel [] rest).map fun (es, after) => (.object (documents es), after)
    | c :: _ =>
      if c = '"' || c = '\'' then
        (quoted? true cs).map fun (s, after) => (.scalar (.text (String.ofList s)) none, after)
      else word? cs
    | [] => none
/-- The items of an array up to its bracket. -/
def items : Nat → List Char → Option (List Document × List Char)
  | 0, _ => none
  | fuel + 1, cs =>
    match skipLines false cs with
    | ']' :: after => some ([], after)
    | cs => do
      let (d, rest) ← value fuel cs
      match skipLines false rest with
      | ',' :: more => (items fuel more).map fun (ds, after) => (d :: ds, after)
      | ']' :: after => some ([d], after)
      | _ => none
/-- The members of an inline table up to its brace, after those that are read already. -/
def members : Nat → Entries → List Char → Option (Entries × List Char)
  | 0, _, _ => none
  | fuel + 1, es, cs => do
    let (ks, rest) ← path? (cs.length + 1) cs
    match rest with
    | '=' :: rest => do
      let (d, rest) ← value fuel (skipGap rest)
      let es ← Entries.assign d ks es
      match skipGap rest with
      | ',' :: more => members fuel es more
      | '\x7d' :: after => some (es, after)
      | _ => none
    | _ => none
end

/-! ## Documents -/

/-- Reads the lines of a text into the tables found so far; `header` names the open table. -/
def lines : Nat → List String → Entries → List Char → Option Entries
  | 0, _, _, _ => none
  | fuel + 1, header, root, cs =>
    match skipLines false cs with
    | [] => some root
    | '[' :: '[' :: rest => do
      let (path, rest) ← path? (cs.length + 1) rest
      match rest with
      | ']' :: ']' :: rest =>
        lines fuel path (← root.openElement path.dropLast (path.getLast?.getD "")) (← lineEnd? rest)
      | _ => none
    | '[' :: rest => do
      let (path, rest) ← path? (cs.length + 1) rest
      match rest with
      | ']' :: rest => lines fuel path (← root.openTable path.dropLast (path.getLast?.getD "")) (← lineEnd? rest)
      | _ => none
    | cs => do
      let (path, rest) ← path? (cs.length + 1) cs
      match rest with
      | '=' :: rest => do
        let (d, rest) ← value (2 * cs.length + 2) (skipGap rest)
        lines fuel header (← root.within header (Entries.assign d path)) (← lineEnd? rest)
      | _ => none

/-- A text with line feeds at the ends of its lines. -/
def withLineFeeds : List Char → List Char
  | '\r' :: '\n' :: cs => '\n' :: withLineFeeds cs
  | c :: cs => c :: withLineFeeds cs
  | [] => []

def isAllowed (c : Char) : Bool := c == '\n' || c == '\t' || (0x20 ≤ c.toNat && c.toNat != 0x7F)

/-- The document of a text. -/
def parse? (s : String) : Option Document :=
  let cs := s.toList
  let cs := withLineFeeds (if cs.head? = some (Char.ofNat 0xFEFF) then cs.drop 1 else cs)
  if cs.all isAllowed then (lines (cs.length + 1) [] [] cs).map fun es => .object (documents es) else none

end FieldBridge.Toml
