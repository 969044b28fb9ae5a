import AccessPolicy.Text.Split
import AccessPolicy.Text.Width

/-!
# Tables

A table is drawn with a border with rounded corners and a line below the header.  A cell may have several lines; its
column is as wide as the widest line in it, and one blank stands on each side of a line.
-/

namespace AccessPolicy

structure Table where
  header : List String
  rows : List (List String)

namespace Table

/-- The lines of the cells of a row. -/
private def cells (row : List String) : List (List (List Char)) := row.map fun cell => Text.splitEach '\n' cell.toList

private def cellWidth (lines : List (List Char)) : Nat := (lines.map Text.width).foldl max 0

private def widths (table : Table) : List Nat :=
  table.rows.foldl (fun ws row => ws.zipWith max ((cells row).map cellWidth)) ((cells table.header).map cellWidth)

/-- A line between rows. -/
private def rule (widths : List Nat) (left cross right : Char) : List Char :=
  let dashes := widths.map fun w => List.replicate (w + 2) '─'
  left :: [cross].intercalate dashes ++ [right]

/-- One line of the cells of a row. -/
private def rowLine (widths : List Nat) (cells : List (List (List Char))) (k : Nat) : List Char :=
  let padded := widths.zipWith (fun w lines =>
    let line := (lines[k]?).getD []
    ' ' :: line ++ List.replicate (w - Text.width line + 1) ' ') cells
  '│' :: ['│'].intercalate padded ++ ['│']

private def rowLines (widths : List Nat) (row : List String) : List (List Char) :=
  let lines := cells row
  (List.range ((lines.map List.length).foldl max 0)).map (rowLine widths lines)

/-- The lines of a table; the border is left open when there are no rows. -/
def lines (table : Table) : List String :=
  let ws := table.widths
  let top := rule ws '╭' '┬' '╮' :: rowLines ws table.header ++ [rule ws '├' '┼' '┤']
  let body := if table.rows.isEmpty then [] else table.rows.flatMap (rowLines ws) ++ [rule ws '╰' '┴' '╯']
  (top ++ body).map String.ofList

end Table

end AccessPolicy
