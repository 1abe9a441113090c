import FieldBridge.Text.Blank
import FieldBridge.Text.Split

/-!
# Tables

Cells are as wide as the longest one of their column. No line ends in blanks.
-/

namespace FieldBridge

structure TextTable where
  headers : List String
  rows : List (List String)

namespace TextTable

/-- The width of each column. -/
def widths (t : TextTable) : List Nat :=
  t.rows.foldl (fun ws row => List.zipWith (fun w cell => max w cell.length) ws row) (t.headers.map String.length)

def padded (width : Nat) (cell : String) : String := cell ++ String.ofList (List.replicate (width - cell.length) ' ')

def line (widths : List Nat) (cells : List String) : String :=
  Text.trimEnd (Text.join " │ " (List.zipWith padded widths cells))

def ruler (widths : List Nat) : String :=
  Text.join "─┼─" (widths.map fun w => String.ofList (List.replicate w '─'))

/-- The headers, a ruler and the rows. -/
def lines (t : TextTable) : List String := line t.widths t.headers :: ruler t.widths :: t.rows.map (line t.widths)

end TextTable

end FieldBridge
