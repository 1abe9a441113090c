import FieldBridge.Decimal.Nearest
import FieldBridge.Text.Split

/-!
# Internet addresses as hosts

A host whose last part is a number has to be an IPv4 address, with one to four parts
in decimal, octal or hexadecimal. A host in square brackets has to be an IPv6 address.
-/

namespace FieldBridge.Url

def isHex (c : Char) : Bool := c.isDigit || ('a' ≤ c && c ≤ 'f') || ('A' ≤ c && c ≤ 'F')

def hexDigitValue (c : Char) : Nat :=
  if c.isDigit then c.toNat - 48 else if 'a' ≤ c then c.toNat - 87 else c.toNat - 55

def ofBase (base : Nat) (ds : List Char) : Nat := ds.foldl (fun n c => base * n + hexDigitValue c) 0

/-- The number a part of an address spells out: `0x` begins hexadecimal and `0` octal. -/
def addressNumber? : List Char → Option Nat
  | [] => none
  | '0' :: 'x' :: ds => if ds.all isHex then some (ofBase 16 ds) else none
  | '0' :: 'X' :: ds => if ds.all isHex then some (ofBase 16 ds) else none
  | '0' :: d :: ds =>
    if (d :: ds).all fun c => '0' ≤ c && c ≤ '7' then some (ofBase 8 (d :: ds)) else none
  | ds => if ds.all Char.isDigit then some (ofBase 10 ds) else none

/-- The parts between dots, without an empty one at the end. -/
def dotParts (host : List Char) : List (List Char) :=
  let parts := Text.pieces ['.'] host
  if parts.getLast? == some [] then parts.dropLast else parts

def endsInNumber (host : List Char) : Bool :=
  match (dotParts host).getLast? with
  | none => false
  | some last => (!last.isEmpty && last.all Char.isDigit) || (addressNumber? last).isSome

/-- All parts but the last are bytes, and the last fills the bytes that are left. -/
def isIpv4 (host : List Char) : Bool :=
  let parts := dotParts host
  match parts.mapM addressNumber? with
  | none => false
  | some numbers =>
    numbers.length ≤ 4 && numbers.dropLast.all (· ≤ 255) &&
      (numbers.getLast?.map fun n => decide (n < Nat.pow 256 (5 - numbers.length))).getD false

/-- Four decimal bytes without leading zeros. -/
def isDottedQuad (cs : List Char) : Bool :=
  let parts := Text.pieces ['.'] cs
  parts.length == 4 && parts.all fun p =>
    !p.isEmpty && p.length ≤ 3 && p.all Char.isDigit && (p.length == 1 || p.head? != some '0') &&
      Text.ofDigits p ≤ 255

/-- How many of the eight groups a list of texts stands for; only the last may be a quad. -/
def groupCount? (quadAllowed : Bool) : List (List Char) → Option Nat
  | [] => some 0
  | [g] =>
    if !g.isEmpty && g.length ≤ 4 && g.all isHex then some 1
    else if quadAllowed && isDottedQuad g then some 2 else none
  | g :: rest =>
    if !g.isEmpty && g.length ≤ 4 && g.all isHex then (groupCount? quadAllowed rest).map (· + 1) else none

def groups (cs : List Char) : List (List Char) := if cs.isEmpty then [] else Text.pieces [':'] cs

/-- Eight groups, or fewer with two colons in the place of the missing ones. -/
def isIpv6 (cs : List Char) : Bool :=
  match Text.pieces [':', ':'] cs with
  | [all] => groupCount? true (groups all) == some 8
  | [front, back] =>
    match groupCount? false (groups front), groupCount? true (groups back) with
    | some m, some n => m + n ≤ 7
    | _, _ => false
  | _ => false

end FieldBridge.Url
