import FieldBridge.Yaml.Printer
import FieldBridge.Yaml.Text

/-!
# Reading YAML

A text holds one document: a scalar, a list or an object, as blocks whose depth is their
indentation, or in brackets. Keys are scalars on one line. Anchors, aliases, tags and
directives are not read.
-/

namespace FieldBridge.Yaml

/-- A value that was left out. -/
def absent : Document := .scalar .null (some "")

def plainDocument (cs : List Char) : Document :=
  let s := String.ofList cs
  .scalar (resolve s) (some s)

def quotedDocument (cs : List Char) : Document := .scalar (.text (String.ofList cs)) none

def isDash : List Char → Bool
  | '-' :: rest => endsWord rest
  | _ => false

def isQuote (c : Char) : Bool := c == '"' || c == '\''

/-- A plain or quoted scalar. -/
def scalar? (inFlow : Bool) (least : Nat) (p : Place) : Option (Document × Place) :=
  if (p.rest.head?.map isQuote).getD false then
    (quoted? p.rest).map fun (cs, rest) => (quotedDocument cs, ⟨0, false, rest⟩)
  else if startsPlain inFlow p.rest then
    let (cs, rest) := plain inFlow least p.rest.length p.rest
    some (plainDocument cs, ⟨0, false, rest⟩)
  else none

/-- A key on one line with the colon after it. -/
def key? (p : Place) : Option (String × Place) := do
  let (name, rest) ←
    if (p.rest.head?.map isQuote).getD false then quoted? p.rest
    else if startsPlain false p.rest then
      let line := plainLine false false p.rest
      some (Text.trimmedEnd line, p.rest.drop line.length)
    else none
  let written := p.rest.take (p.rest.length - rest.length)
  match rest.dropWhile isGap with
  | ':' :: after =>
    if written.contains '\n' || !endsWord after then none else some (String.ofList name, ⟨0, false, after⟩)
  | _ => none

/-! ## Values in brackets -/

mutual
def flow : Nat → Place → Option (Document × Place)
  | 0, _ => none
  | fuel + 1, p =>
    match p.rest with
    | '[' :: rest => (flowItems fuel ⟨0, false, rest⟩).map fun (items, q) => (.list items false, q)
    | '\x7b' :: rest => (flowMembers fuel ⟨0, false, rest⟩).map fun (members, q) => (.object members, q)
    | _ => scalar? true 0 p
/-- The value after a colon, which may be left out. -/
def flowValue : Nat → Place → Option (Document × Place)
  | 0, _ => none
  | fuel + 1, p =>
    let p := p.next true
    if (p.rest.head?.map isFlowIndicator).getD true && p.rest.head? != some '[' && p.rest.head? != some '\x7b' then
      some (absent, p)
    else flow fuel p
/-- The items up to the closing bracket; one that has a colon is an object of one member. -/
def flowItems : Nat → Place → Option (List Document × Place)
  | 0, _ => none
  | fuel + 1, p =>
    let p := p.next true
    match p.rest with
    | ']' :: rest => some ([], ⟨0, false, rest⟩)
    | _ => do
      let (d, q) ← flow fuel p
      let q := q.next true
      let (d, q) ← match q.rest with
        | ':' :: rest => do
          let (v, q) ← flowValue fuel ⟨0, false, rest⟩
          some (Document.object [(← d.text?, v)], q.next true)
        | _ => some (d, q)
      match q.rest with
      | ',' :: rest => (flowItems fuel ⟨0, false, rest⟩).map fun (ds, q) => (d :: ds, q)
      | ']' :: rest => some ([d], ⟨0, false, rest⟩)
      | _ => none
/-- The members up to the closing brace. -/
def flowMembers : Nat → Place → Option (List (String × Document) × Place)
  | 0, _ => none
  | fuel + 1, p =>
    let p := p.next true
    match p.rest with
    | '\x7d' :: rest => some ([], ⟨0, false, rest⟩)
    | _ => do
      let (k, q) ← flow fuel p
      let name ← k.text?
      let q := q.next true
      let (v, q) ← match q.rest with
        | ':' :: rest => (flowValue fuel ⟨0, false, rest⟩).map fun (v, q) => (v, q.next true)
        | _ => some (absent, q)
      match q.rest with
      | ',' :: rest => (flowMembers fuel ⟨0, false, rest⟩).map fun (ms, q) => ((name, v) :: ms, q)
      | '\x7d' :: rest => some ([(name, v)], ⟨0, false, rest⟩)
      | _ => none
end

/-! ## Blocks -/

mutual
/-- A value at a place; `mayOpen` is whether a block may start here. Whatever belongs to it is
indented at least to the given column. -/
def value : Nat → Nat → Bool → Place → Option (Document × Place)
  | 0, _, _, _ => none
  | fuel + 1, least, mayOpen, p =>
    if mayOpen && isDash p.rest then (blockItems fuel p.column p).map fun (items, q) => (.list items false, q)
    else if p.rest.head? == some '|' || p.rest.head? == some '>' then
      (block? least p.rest).map fun (cs, rest) => (quotedDocument cs, ⟨0, true, rest⟩)
    else if mayOpen && (key? p).isSome then
      (blockMembers fuel p.column p).map fun (members, q) => (.object members, q)
    else if p.rest.head? == some '[' || p.rest.head? == some '\x7b' then flow fuel p
    else scalar? false least p
/-- The value of a key or an item of a block in a column. -/
def valueIn : Nat → Nat → Bool → Place → Option (Document × Place)
  | 0, _, _, _ => none
  | fuel + 1, column, isKey, p =>
    let p := p.next false
    if p.atEnd then some (absent, p)
    else if !p.fresh then value fuel (column + 1) (!isKey) p
    else if column < p.column then value fuel (column + 1) true p
    else if isKey && p.column == column && isDash p.rest then value fuel column true p
    else some (absent, p)
def blockItems : Nat → Nat → Place → Option (List Document × Place)
  | 0, _, _ => none
  | fuel + 1, column, p => do
    let (d, q) ← valueIn fuel column false (p.after 1)
    let q := q.next false
    if q.atEnd || (q.fresh && q.column < column) then some ([d], q)
    else if q.fresh && q.column == column then
      if isDash q.rest then (blockItems fuel column q).map fun (ds, q) => (d :: ds, q) else some ([d], q)
    else none
def blockMembers : Nat → Nat → Place → Option (List (String × Document) × Place)
  | 0, _, _ => none
  | fuel + 1, column, p => do
    let (k, q) ← key? p
    let (v, q) ← valueIn fuel column true q
    let q := q.next false
    if q.atEnd || (q.fresh && q.column < column) then some ([(k, v)], q)
    else if q.fresh && q.column == column then
      (blockMembers fuel column q).map fun (ms, q) => ((k, v) :: ms, q)
    else none
end

/-! ## Documents -/

/-- A text with line feeds at the ends of its lines. -/
def withLineFeeds : List Char → List Char
  | '\r' :: '\n' :: cs => '\n' :: withLineFeeds cs
  | c :: cs => (if c = '\r' || c.toNat = 0x85 then '\n' else c) :: withLineFeeds cs
  | [] => []

/-- After the document there is nothing, or the mark of its end. -/
def isOver (p : Place) : Bool :=
  match p.rest with
  | [] => true
  | '.' :: '.' :: '.' :: rest => p.atEnd && (skip false false false true 3 rest).rest.isEmpty
  | _ => false

def document? (cs : List Char) : Option Document := do
  let p := skip false false true false 0 cs
  let (mayOpen, p) := match p.rest with
    | '-' :: '-' :: '-' :: rest =>
      if p.atEnd then
        let q := skip false false false true 3 rest
        (q.fresh, q)
      else (true, p)
    | _ => (true, p)
  if p.atEnd then (if isOver p then some absent else none)
  else
    let (d, q) ← value (4 * cs.length + 8) 0 mayOpen p
    if isOver (q.next false) then some d else none

/-- The document of a text. -/
def parse? (s : String) : Option Document :=
  let cs := withLineFeeds (s.toList.dropWhile (· == Char.ofNat 0xFEFF))
  if cs.all fun c => isPrintable c || c == '\t' then document? cs else none

end FieldBridge.Yaml
