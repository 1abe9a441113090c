import FieldBridge.Text.Blank
import FieldBridge.Yaml.Scalar

/-!
# Scalars in YAML texts

Plain, quoted and block scalars as they are written. A single line break inside a plain
or quoted scalar is read as a blank, and of several breaks all but one are kept.
-/

namespace FieldBridge.Yaml

/-- A place in a text: its column, whether only blanks are before it on its line, and the
text from it on. -/
structure Place where
  column : Nat
  fresh : Bool
  rest : List Char

def isGap (c : Char) : Bool := c == ' ' || c == '\t'

/-- Whether a character ends a word: a blank, a line end, or the end of the text. -/
def endsWord (cs : List Char) : Bool := (cs.head?.map fun c => isGap c || c == '\n').getD true

def isFlowIndicator (c : Char) : Bool := [',', '[', ']', '\x7b', '\x7d'].contains c

/-- The line that separates documents, at the start of a line. -/
def isMarker (cs : List Char) : Bool :=
  match cs with
  | '-' :: '-' :: '-' :: rest => endsWord rest
  | '.' :: '.' :: '.' :: rest => endsWord rest
  | _ => false

/-- Passes over blanks, comments and line breaks to the next word. Outside brackets no line is
indented by tabs. -/
def skip (inFlow : Bool) : Bool → Bool → Bool → Nat → List Char → Place
  | _, fresh, _, column, [] => ⟨column, fresh, []⟩
  | inComment, fresh, tabs, column, c :: cs =>
    if c = '\n' then skip inFlow false true inFlow 0 cs
    else if inComment then skip inFlow true fresh tabs (column + 1) cs
    else if c = ' ' || (c = '\t' && tabs) then skip inFlow false fresh tabs (column + 1) cs
    else if c = '#' then skip inFlow true fresh tabs (column + 1) cs
    else ⟨column, fresh, c :: cs⟩

def Place.next (inFlow : Bool) (p : Place) : Place := skip inFlow false p.fresh (inFlow || !p.fresh) p.column p.rest

/-- Whether nothing more is in the document. -/
def Place.atEnd (p : Place) : Bool := p.rest.isEmpty || (p.fresh && p.column == 0 && isMarker p.rest)

/-- The place after some characters of a line. -/
def Place.after (p : Place) (n : Nat) : Place := ⟨p.column + n, false, p.rest.drop n⟩

/-! ## Breaks inside scalars -/

def fold (breaks : Nat) : List Char := if breaks ≤ 1 then [' '] else List.replicate (breaks - 1) '\n'

def countBreaks (cs : List Char) : Nat := (cs.filter (· == '\n')).length

/-- Blanks and breaks at the start of a text, and the rest of it. -/
def gap (cs : List Char) : List Char × List Char :=
  let isBetween (c : Char) : Bool := isGap c || c == '\n'
  (cs.takeWhile isBetween, cs.dropWhile isBetween)

/-- The column after a gap that holds a break. -/
def columnAfter (between : List Char) : Nat := (between.reverse.takeWhile (· != '\n')).length

/-! ## Plain scalars -/

def startsPlain (inFlow : Bool) : List Char → Bool
  | [] => false
  | c :: rest =>
    if ['-', '?', ':'].contains c then
      !endsWord rest && !(inFlow && (rest.head?.map isFlowIndicator).getD false)
    else !(isGap c || isFlowIndicator c ||
      ['#', '&', '*', '!', '|', '>', '\'', '"', '%', '@', Char.ofNat 0x60].contains c)

/-- The plain text on one line, up to a colon that ends a word, a comment, or the end of an item. -/
def plainLine (inFlow : Bool) : Bool → List Char → List Char
  | _, [] => []
  | afterGap, c :: cs =>
    if c = '\n' || (c = ':' && endsWord cs) || (c = '#' && afterGap) then []
    else if inFlow && (isFlowIndicator c || (c = ':' && (cs.head?.map isFlowIndicator).getD false)) then []
    else c :: plainLine inFlow (isGap c) cs

/-- A plain scalar and the text after it. Lines that go on with it are indented at least to
the given column. -/
def plain (inFlow : Bool) (least : Nat) : Nat → List Char → List Char × List Char
  | 0, cs => ([], cs)
  | fuel + 1, cs =>
    let line := plainLine inFlow false cs
    let rest := cs.drop line.length
    let (between, more) := gap rest
    let column := columnAfter between
    let goesOn := between.contains '\n' && (inFlow || least ≤ column) && more.head? != some '#' &&
      !(column == 0 && isMarker more)
    let (further, after) := if goesOn then plain inFlow least fuel more else ([], rest)
    if further.isEmpty then (Text.trimmedEnd line, rest)
    else (Text.trimmedEnd line ++ fold (countBreaks between) ++ further, after)

/-! ## Quoted scalars -/

/-- Reads characters of a quoted scalar up to its closing quote; `one` reads what is neither a
blank nor a quote. -/
def quotedBody (one : List Char → Option (List Char × List Char)) (isClose : List Char → Bool) :
    Nat → List Char → Option (List Char × List Char)
  | 0, _ => none
  | fuel + 1, cs =>
    if isClose cs then some ([], cs.drop 1)
    else
      match gap cs with
      | ([], _) => do
        let (c, rest) ← one cs
        let (more, after) ← quotedBody one isClose fuel rest
        some (c ++ more, after)
      | (between, rest) => do
        let (more, after) ← quotedBody one isClose fuel rest
        some ((if between.contains '\n' then fold (countBreaks between) else between) ++ more, after)

def singleOne : List Char → Option (List Char × List Char)
  | '\'' :: '\'' :: rest => some (['\''], rest)
  | c :: rest => some ([c], rest)
  | [] => none

def closesSingle : List Char → Bool
  | '\'' :: '\'' :: _ => false
  | '\'' :: _ => true
  | _ => false

/-- The characters of the escapes of one letter. -/
def escapes : List (Char × Nat) :=
  [('0', 0), ('a', 7), ('b', 8), ('t', 9), ('\t', 9), ('n', 10), ('v', 11), ('f', 12), ('r', 13), ('e', 27), (' ', 32),
    ('"', 34), ('/', 47), ('\\', 92), ('N', 0x85), ('_', 0xA0), ('L', 0x2028), ('P', 0x2029)]

/-- A character by its number of a fixed count of digits. -/
def numbered (count : Nat) (cs : List Char) : Option (List Char × List Char) := do
  let n ← inBase? 16 (cs.take count)
  if (cs.take count).length = count ∧ n.isValidChar then some ([Char.ofNat n], cs.drop count) else none

def doubleOne : List Char → Option (List Char × List Char)
  | '\\' :: '\n' :: rest =>
    let (between, more) := gap rest
    some (List.replicate (countBreaks between) '\n', more)
  | '\\' :: 'x' :: rest => numbered 2 rest
  | '\\' :: 'u' :: rest => numbered 4 rest
  | '\\' :: 'U' :: rest => numbered 8 rest
  | '\\' :: c :: rest => (escapes.lookup c).map fun n => ([Char.ofNat n], rest)
  | ['\\'] => none
  | c :: rest => some ([c], rest)
  | [] => none

/-- A quoted scalar and the text after it. -/
def quoted? : List Char → Option (List Char × List Char)
  | '\'' :: rest => quotedBody singleOne closesSingle (rest.length + 1) rest
  | '"' :: rest => quotedBody doubleOne (·.head? == some '"') (rest.length + 1) rest
  | _ => none

/-! ## Block scalars -/

/-- What becomes of the line ends at the end of a block. -/
inductive Chomp where
  | strip
  | clip
  | keep
  deriving DecidableEq, Repr

structure BlockHeader where
  folded : Bool
  chomp : Chomp := .clip
  indent : Option Nat := none

/-- The marks of a block header, each at most once. -/
def BlockHeader.marks (h : BlockHeader) : List Char → BlockHeader × List Char
  | '-' :: rest => ({ h with chomp := .strip }, rest)
  | '+' :: rest => ({ h with chomp := .keep }, rest)
  | c :: rest =>
    if '1' ≤ c ∧ c ≤ '9' then ({ h with indent := some (Text.digitValue c) }, rest) else (h, c :: rest)
  | [] => (h, [])

/-- A block header with its line end. -/
def blockHeader? (cs : List Char) : Option (BlockHeader × List Char) := do
  let (folded, cs) ← match cs with
    | '|' :: rest => some (false, rest)
    | '>' :: rest => some (true, rest)
    | _ => none
  let (h, cs) := (BlockHeader.mk folded .clip none).marks cs
  let (h, cs) := if h.indent.isSome then
      (if cs.head?.any fun c => '1' ≤ c ∧ c ≤ '9' then (h, cs) else h.marks cs)
    else if h.chomp = .clip then (h, cs)
    else (if cs.head?.any fun c => c = '-' ∨ c = '+' then (h, cs) else h.marks cs)
  let rest := cs.dropWhile isGap
  match rest with
  | [] => some (h, [])
  | '\n' :: more => some (h, more)
  | '#' :: more => if rest.length < cs.length then some (h, (more.dropWhile (· != '\n')).drop 1) else none
  | _ => none

/-- A line of a block scalar: its text, and whether a break ends it. -/
structure BlockLine where
  text : List Char
  ended : Bool

/-- The lines of a block at an indentation, and the text after it. A line of fewer blanks than
the indentation is empty. -/
def blockLines (indent : Nat) : Nat → List Char → List BlockLine × List Char
  | 0, cs => ([], cs)
  | fuel + 1, cs =>
    let line := cs.takeWhile (· != '\n')
    let rest := cs.drop line.length
    let depth := (line.takeWhile (· == ' ')).length
    if rest.isEmpty && line.length ≤ indent && depth == line.length then ([], [])
    else if depth < indent && depth < line.length then ([], cs)
    else
      let (more, after) := blockLines indent fuel (rest.drop 1)
      (⟨line.drop indent, !rest.isEmpty⟩ :: more, after)

/-- The indentation of a block: that of its first line, or of a longer empty line before it. -/
def blockIndent (least : Nat) : Nat → List Char → Nat
  | 0, _ => least
  | fuel + 1, cs =>
    let line := cs.takeWhile (· != '\n')
    let rest := cs.drop line.length
    let depth := (line.takeWhile (· == ' ')).length
    if depth < line.length || rest.isEmpty then max least depth else blockIndent (max least depth) fuel (rest.drop 1)

/-- The text of a block while its lines are read. -/
structure BlockText where
  text : List Char := []
  /-- whether the last line has a break that is not yet written -/
  pending : Bool := false
  /-- empty lines since then -/
  emptyLines : Nat := 0
  afterBlank : Bool := false

def BlockText.add (folded : Bool) (t : BlockText) (l : BlockLine) : BlockText :=
  if l.text.isEmpty then { t with emptyLines := t.emptyLines + 1 }
  else
    let blank := (l.text.head?.map isGap).getD false
    let joined := folded && t.pending && !t.afterBlank && !blank
    let between :=
      if joined then (if t.emptyLines = 0 then [' '] else []) else (if t.pending then ['\n'] else [])
    { text := t.text ++ between ++ List.replicate t.emptyLines '\n' ++ l.text, pending := l.ended, emptyLines := 0
      afterBlank := blank }

/-- A block scalar inside something indented to one less than `least`. -/
def block? (least : Nat) (cs : List Char) : Option (List Char × List Char) := do
  let (h, cs) ← blockHeader? cs
  let indent := match h.indent with
    | some n => (least - 1) + n
    | none => blockIndent (max 1 least) cs.length cs
  let (lines, after) := blockLines indent (cs.length + 1) cs
  let t := lines.foldl (BlockText.add h.folded) {}
  let ending := match h.chomp with
    | .strip => []
    | .clip => if t.pending then ['\n'] else []
    | .keep => (if t.pending then ['\n'] else []) ++ List.replicate t.emptyLines '\n'
  some (t.text ++ ending, after)

end FieldBridge.Yaml
