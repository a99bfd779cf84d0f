/-! # Tables

A table has a head and rows, with lines around every cell.  A column is as wide as its widest cell
and cells stand at its left.
-/

namespace Storefront.Table

/-- The characters of a horizontal line: its left end, what it is drawn with, where it meets a line
between columns, and its right end. -/
structure Rule where
  left : String
  dash : Char
  cross : String
  right : String

/-- The line above the head. -/
def top : Rule := ⟨"┌", '─', "┬", "┐"⟩

/-- The line below the head. -/
def belowHead : Rule := ⟨"╞", '═', "╪", "╡"⟩

/-- The line between two rows. -/
def between : Rule := ⟨"├", '╌', "┼", "┤"⟩

/-- The line below the last row. -/
def bottom : Rule := ⟨"└", '─', "┴", "┘"⟩

/-- A horizontal line over columns of the given widths, with a blank on either side of a cell. -/
def Rule.draw (rule : Rule) (widths : List Nat) : String :=
  rule.left ++
    rule.cross.intercalate (widths.map fun w => String.ofList (List.replicate (w + 2) rule.dash)) ++
    rule.right

/-- A cell as wide as its column. -/
def pad (width : Nat) (cell : String) : String :=
  cell ++ String.ofList (List.replicate (width - cell.length) ' ')

/-- A row of cells. -/
def drawRow (widths : List Nat) (cells : List String) : String :=
  "│ " ++ " ┆ ".intercalate ((widths.zip cells).map fun (w, cell) => pad w cell) ++ " │"

/-- The width of every column, given all rows. -/
def widths (head : List String) (rows : List (List String)) : List Nat :=
  rows.foldl (fun ws row => (ws.zip row).map fun (w, cell) => max w cell.length)
    (head.map String.length)

/-- The lines of a table. -/
def draw (head : List String) (rows : List (List String)) : List String :=
  let ws := widths head rows
  [top.draw ws, drawRow ws head, belowHead.draw ws] ++
    (rows.map (drawRow ws)).intersperse (between.draw ws) ++ [bottom.draw ws]

end Storefront.Table
