/-!
# Splitting and joining

A text is cut at the leftmost occurrences of a separator that do not overlap, and
pieces are put together with a separator between them.
-/

namespace FieldBridge.Text

/-- Puts a character in front of the first piece. -/
def onFirst (c : Char) : List (List Char) → List (List Char)
  | [] => [[c]]
  | piece :: rest => (c :: piece) :: rest

/-- The pieces of a text; the counter is the rest of a separator that is being passed over. -/
def piecesFrom (sep : List Char) : Nat → List Char → List (List Char)
  | _, [] => [[]]
  | k + 1, _ :: cs => piecesFrom sep k cs
  | 0, c :: cs =>
    if sep.isPrefixOf (c :: cs) then [] :: piecesFrom sep (sep.length - 1) cs
    else onFirst c (piecesFrom sep 0 cs)

def pieces (sep cs : List Char) : List (List Char) := piecesFrom sep 0 cs

def split (sep s : String) : List String := (pieces sep.toList s.toList).map String.ofList

def join (sep : String) (parts : List String) : String := String.intercalate sep parts

/-- Whether `part` occurs in the text. -/
def occursIn (part : List Char) : List Char → Bool
  | [] => part.isEmpty
  | c :: cs => part.isPrefixOf (c :: cs) || occursIn part cs

end FieldBridge.Text
