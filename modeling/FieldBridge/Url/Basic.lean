import FieldBridge.Url.Address
import FieldBridge.Url.Domain

/-!
# Absolute URLs

Whether a text is an absolute URL: a scheme, and for the schemes of the web a host
that is a domain name or an address, with an optional service number. Tabs and line ends inside
the text are passed over, as are blanks and control characters at its ends.
-/

namespace FieldBridge.Url

def isEdge (c : Char) : Bool := c.toNat ≤ 0x20

/-- The characters of a text that count. -/
def significant (s : String) : List Char :=
  (((s.toList.dropWhile isEdge).reverse.dropWhile isEdge).reverse).filter fun c => c != '\t' && c != '\n' && c != '\r'

def isSchemeChar (c : Char) : Bool := c.isAlphanum || c == '+' || c == '-' || c == '.'

/-- The scheme in lower case and the text after its colon. -/
def scheme? (cs : List Char) : Option (String × List Char) :=
  let name := cs.takeWhile isSchemeChar
  match cs.dropWhile isSchemeChar with
  | ':' :: rest =>
    if (name.head?.map Char.isAlpha).getD false then some (String.ofList (name.map Char.toLower), rest) else none
  | _ => none

/-- Schemes whose URLs name a host of the web. -/
def webSchemes : List String := ["http", "https", "ws", "wss", "ftp"]

def endsAuthority (web : Bool) (c : Char) : Bool := c == '/' || c == '?' || c == '#' || (web && c == '\\')

/-- Up to the first colon that is not inside square brackets. -/
def splitService : Bool → List Char → List Char × List Char
  | _, [] => ([], [])
  | inside, c :: cs =>
    if c = ':' ∧ ¬inside then ([], c :: cs)
    else
      let (host, rest) := splitService (if c = '[' then true else if c = ']' then false else inside) cs
      (c :: host, rest)

def isService (cs : List Char) : Bool :=
  let ds := cs.takeWhile (· != '\\')
  ds.all Char.isDigit && Text.ofDigits ds ≤ 65535

/-- Bytes with every `%` and two hexadecimal digits taken as one byte. -/
def percentDecoded : List UInt8 → List UInt8
  | 37 :: a :: b :: rest =>
    let (x, y) := (Char.ofNat a.toNat, Char.ofNat b.toNat)
    if isHex x && isHex y then UInt8.ofNat (16 * hexDigitValue x + hexDigitValue y) :: percentDecoded rest
    else 37 :: percentDecoded (a :: b :: rest)
  | a :: rest => a :: percentDecoded rest
  | [] => []

def decodedHost? (cs : List Char) : Option (List Char) :=
  if cs.contains '%' then
    (String.fromUTF8? ⟨(percentDecoded (String.ofList cs).toUTF8.toList).toArray⟩).map String.toList
  else some cs

def bracketed (cs : List Char) : Bool := cs.getLast? == some ']' && isIpv6 (cs.drop 1).dropLast

/-- A host of the web: an address or a domain name. -/
def isWebHost (cs : List Char) : Bool :=
  if cs.head? == some '[' then bracketed cs
  else
    match (decodedHost? cs).bind domain? with
    | none => false
    | some name => !name.isEmpty && (!endsInNumber name || isIpv4 name)

/-- A host of any other scheme. -/
def isOpaqueHost (cs : List Char) : Bool :=
  if cs.head? == some '[' then bracketed cs
  else !cs.any fun c => c == '\x00' || c == ' ' || "#/:<>?@[\\]^|".toList.contains c

/-- User, host and service number after two slashes. -/
def isAuthority (web : Bool) (cs : List Char) : Bool :=
  let authority := cs.takeWhile (!endsAuthority web ·)
  let more := cs.drop authority.length
  let hostPart := (authority.reverse.takeWhile (· != '@')).reverse
  let user := authority.take (authority.length - hostPart.length - 1)
  let marked := decide (hostPart.length < authority.length)
  let (host, service) := splitService false hostPart
  if marked && user.isEmpty && hostPart.isEmpty && !more.isEmpty then false
  else if host.isEmpty then !web && service.isEmpty && (user.isEmpty || user == [':'])
  else (if web then isWebHost host else isOpaqueHost host) && (service.isEmpty || isService (service.drop 1))

def isSlash (c : Char) : Bool := c == '/' || c == '\\'

/-- A file URL may name a host after two slashes, but a drive letter is none. -/
def isFileRest (cs : List Char) : Bool :=
  match cs with
  | a :: b :: rest =>
    if isSlash a && isSlash b then
      let host := rest.takeWhile fun c => !endsAuthority true c
      match host with
      | [] => true
      | [l, m] => (l.isAlpha && (m == ':' || m == '|')) || isWebHost host
      | _ => isWebHost host
    else true
  | _ => true

def isAbsolute (s : String) : Bool :=
  match scheme? (significant s) with
  | none => false
  | some (scheme, rest) =>
    if scheme == "file" then isFileRest rest
    else if webSchemes.contains scheme then isAuthority true (rest.dropWhile isSlash)
    else
      match rest with
      | '/' :: '/' :: more => isAuthority false more
      | _ => true

end FieldBridge.Url
