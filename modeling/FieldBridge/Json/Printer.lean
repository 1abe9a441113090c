import FieldBridge.Json.Basic
import FieldBridge.Decimal.Shortest

/-!
# Printing JSON

The compact form has no blanks. The indented form gives each item its own line, two
blanks deeper than its container. Characters from U+0020 on stand for themselves,
but for the quote and the backslash.
-/

namespace FieldBridge

/-- Floats are positional from `0.00001` to below `10 ^ 16`, and an exponent has its sign. -/
def Number.floatStyle : Decimal.FloatStyle := ⟨-5, 15, true⟩

def Number.text : Number → String
  | .int n _ => toString n
  | .float x _ => floatStyle.text x

namespace Json

def hexDigit (n : Nat) : Char := if n < 10 then Char.ofNat (48 + n) else Char.ofNat (87 + n)

def escapeChar (c : Char) : List Char :=
  if c = '"' then ['\\', '"']
  else if c = '\\' then ['\\', '\\']
  else if c = '\n' then ['\\', 'n']
  else if c = '\r' then ['\\', 'r']
  else if c = '\t' then ['\\', 't']
  else if c = '\x08' then ['\\', 'b']
  else if c = '\x0c' then ['\\', 'f']
  else if c.toNat < 0x20 then ['\\', 'u', '0', '0', hexDigit (c.toNat / 16), hexDigit (c.toNat % 16)]
  else [c]

def quoted (s : String) : List Char := '"' :: s.toList.flatMap escapeChar ++ ['"']

mutual
/-- The compact form. -/
def chars : Json → List Char
  | null => ['n', 'u', 'l', 'l']
  | bool true => ['t', 'r', 'u', 'e']
  | bool false => ['f', 'a', 'l', 's', 'e']
  | number n => n.text.toList
  | string s => quoted s
  | array items => '[' :: charsItems items
  | object members => '\x7b' :: charsMembers members
/-- The items of an array and its closing bracket. -/
def charsItems : List Json → List Char
  | [] => [']']
  | v :: rest => chars v ++ charsMoreItems rest
def charsMoreItems : List Json → List Char
  | [] => [']']
  | v :: rest => ',' :: chars v ++ charsMoreItems rest
/-- The members of an object and its closing brace. -/
def charsMembers : List (String × Json) → List Char
  | [] => ['\x7d']
  | (k, v) :: rest => quoted k ++ ':' :: chars v ++ charsMoreMembers rest
def charsMoreMembers : List (String × Json) → List Char
  | [] => ['\x7d']
  | (k, v) :: rest => ',' :: quoted k ++ ':' :: chars v ++ charsMoreMembers rest
end

def compact (v : Json) : String := String.ofList (chars v)

def newline (depth : Nat) : List Char := '\n' :: List.replicate (2 * depth) ' '

mutual
/-- The indented form of a value inside `depth` containers. -/
def indented (depth : Nat) : Json → List Char
  | array [] => ['[', ']']
  | array (v :: rest) =>
    '[' :: newline (depth + 1) ++ indented (depth + 1) v ++ indentedItems depth rest
  | object [] => ['\x7b', '\x7d']
  | object ((k, v) :: rest) =>
    '\x7b' :: newline (depth + 1) ++ quoted k ++ ':' :: ' ' :: indented (depth + 1) v ++ indentedMembers depth rest
  | null => chars null
  | bool b => chars (bool b)
  | number n => chars (number n)
  | string s => chars (string s)
def indentedItems (depth : Nat) : List Json → List Char
  | [] => newline depth ++ [']']
  | v :: rest => ',' :: newline (depth + 1) ++ indented (depth + 1) v ++ indentedItems depth rest
def indentedMembers (depth : Nat) : List (String × Json) → List Char
  | [] => newline depth ++ ['\x7d']
  | (k, v) :: rest =>
    ',' :: newline (depth + 1) ++ quoted k ++ ':' :: ' ' :: indented (depth + 1) v ++ indentedMembers depth rest
end

def pretty (v : Json) : String := String.ofList (indented 0 v)

end Json

end FieldBridge
