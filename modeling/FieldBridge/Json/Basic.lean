import FieldBridge.Keyed
import FieldBridge.Decimal.Binary

/-!
# JSON values

A value is a tree as it is written, the members of an object in their written order.
`normalize` gives the value it stands for: members sorted by key, the last of several
with one key, at every depth. Every value the program computes with is in this form.
-/

namespace FieldBridge

/-- A number keeps its representation: `1` is not `1.0`, and `0.0` is not `-0.0`. -/
inductive Number where
  | int (n : Int) (range : -0x8000000000000000 ≤ n ∧ n < 0x10000000000000000)
  | float (x : Float) (finite : x.isFinite = true)
  deriving DecidableEq

inductive Json where
  | null
  | bool (b : Bool)
  | number (n : Number)
  | string (s : String)
  | array (items : List Json)
  | object (members : List (String × Json))

namespace Number

def ofInt? (n : Int) : Option Number :=
  if h : -0x8000000000000000 ≤ n ∧ n < 0x10000000000000000 then some (.int n h) else none

def ofFloat? (x : Float) : Option Number :=
  if h : x.isFinite = true then some (.float x h) else none

def toFloat : Number → Float
  | .int n _ => Float.ofInt n
  | .float x _ => x

/-- The whole number, for a number that is written as one. -/
def toInt? : Number → Option Int
  | .int n _ => some n
  | .float .. => none

def toNat? (n : Number) : Option Nat := n.toInt?.bind fun i => if 0 ≤ i then some i.toNat else none

end Number

namespace Json

mutual
/-- Equality of trees is decidable. -/
def decEq : (a b : Json) → Decidable (a = b)
  | null, null => isTrue rfl
  | bool a, bool b => if h : a = b then isTrue (h ▸ rfl) else isFalse (by rintro ⟨⟩; exact h rfl)
  | number a, number b => if h : a = b then isTrue (h ▸ rfl) else isFalse (by rintro ⟨⟩; exact h rfl)
  | string a, string b => if h : a = b then isTrue (h ▸ rfl) else isFalse (by rintro ⟨⟩; exact h rfl)
  | array a, array b => match decEqItems a b with
    | isTrue h => isTrue (h ▸ rfl)
    | isFalse h => isFalse (by rintro ⟨⟩; exact h rfl)
  | object a, object b => match decEqMembers a b with
    | isTrue h => isTrue (h ▸ rfl)
    | isFalse h => isFalse (by rintro ⟨⟩; exact h rfl)
  | null, bool _ | null, number _ | null, string _ | null, array _ | null, object _
  | bool _, null | bool _, number _ | bool _, string _ | bool _, array _ | bool _, object _
  | number _, null | number _, bool _ | number _, string _ | number _, array _ | number _, object _
  | string _, null | string _, bool _ | string _, number _ | string _, array _ | string _, object _
  | array _, null | array _, bool _ | array _, number _ | array _, string _ | array _, object _
  | object _, null | object _, bool _ | object _, number _ | object _, string _ | object _, array _ =>
    isFalse (by rintro ⟨⟩)
def decEqItems : (a b : List Json) → Decidable (a = b)
  | [], [] => isTrue rfl
  | [], _ :: _ | _ :: _, [] => isFalse (by rintro ⟨⟩)
  | a :: as, b :: bs => match decEq a b, decEqItems as bs with
    | isTrue h, isTrue h' => isTrue (h ▸ h' ▸ rfl)
    | isFalse h, _ => isFalse (by rintro ⟨⟩; exact h rfl)
    | _, isFalse h => isFalse (by rintro ⟨⟩; exact h rfl)
def decEqMembers : (a b : List (String × Json)) → Decidable (a = b)
  | [], [] => isTrue rfl
  | [], _ :: _ | _ :: _, [] => isFalse (by rintro ⟨⟩)
  | (k, a) :: as, (l, b) :: bs => match decEq a b, decEqMembers as bs with
    | isTrue h, isTrue h' => if hk : k = l then isTrue (hk ▸ h ▸ h' ▸ rfl) else isFalse (by rintro ⟨⟩; exact hk rfl)
    | isFalse h, _ => isFalse (by rintro ⟨⟩; exact h rfl)
    | _, isFalse h => isFalse (by rintro ⟨⟩; exact h rfl)
end

instance : DecidableEq Json := decEq

instance : Inhabited Json := ⟨null⟩

mutual
/-- The value a tree stands for: sorted members, the last of several with one key. -/
def normalize : Json → Json
  | array items => array (normalizeItems items)
  | object members => object (normalizeMembers members)
  | null => null
  | bool b => bool b
  | number n => number n
  | string s => string s
def normalizeItems : List Json → List Json
  | [] => []
  | v :: rest => normalize v :: normalizeItems rest
def normalizeMembers : List (String × Json) → Keyed Json
  | [] => []
  | (k, v) :: rest => Keyed.insertAbsent k (normalize v) (normalizeMembers rest)
end

/-! ## Making values -/

def int (n : Int) : Json := match Number.ofInt? n with
  | some i => number i
  | none => null

def nat (n : Nat) : Json := int n

/-- An infinity and what is no number have no JSON form and become `null`. -/
def float (x : Float) : Json := match Number.ofFloat? x with
  | some n => number n
  | none => null

/-! ## Looking into values -/

def isNull : Json → Bool
  | null => true
  | _ => false

def string? : Json → Option String
  | string s => some s
  | _ => none

def array? : Json → Option (List Json)
  | array items => some items
  | _ => none

/-- The member of an object under a key. -/
def member? (key : String) : Json → Option Json
  | object members => Keyed.find? key members
  | _ => none

/-- The text under a key, empty where there is none. -/
def memberText (key : String) (v : Json) : String := ((v.member? key).bind string?).getD ""

end Json

end FieldBridge
