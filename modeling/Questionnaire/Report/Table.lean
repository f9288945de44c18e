import Questionnaire.Text.Cut
import Questionnaire.Text.Width

/-! Tables drawn with box characters. A column is as wide as its widest line, with a
blank on both sides; a row is as high as its highest cell. A double rule stands
below the head, dashed rules between the other rows. -/
namespace Questionnaire.Report

open Text

abbrev TableCell := List String

def TableCell.ofText (s : String) : TableCell := splitOnChar '\n' s

def TableCell.width (c : TableCell) : Nat := (c.map Text.width).foldl max 0

structure TextTable where
  head : List TableCell
  rows : List (List TableCell)

structure Rule where
  left : String
  fill : String
  cross : String
  right : String

def Rule.top : Rule := ⟨"┌", "─", "┬", "┐"⟩
def Rule.head : Rule := ⟨"╞", "═", "╪", "╡"⟩
def Rule.inner : Rule := ⟨"├", "╌", "┼", "┤"⟩
def Rule.bottom : Rule := ⟨"└", "─", "┴", "┘"⟩

def repeated (s : String) (count : Nat) : String := String.join (List.replicate count s)

/-- A rule over columns of the given widths. -/
def Rule.draw (r : Rule) (widths : List Nat) : String :=
  r.left ++ r.cross.intercalate (widths.map fun w => repeated r.fill (w + 2)) ++ r.right

def padRight (s : String) (columns : Nat) : String :=
  s ++ repeated " " (columns - Text.width s)

def drawLine (widths : List Nat) (texts : List String) : String :=
  "│" ++ "┆".intercalate ((widths.zip texts).map fun (w, s) => " " ++ padRight s w ++ " ") ++ "│"

def drawRow (widths : List Nat) (cells : List TableCell) : List String :=
  let height := (cells.map List.length).foldl max 1
  (List.range height).map fun i => drawLine widths (cells.map fun cell => cell[i]?.getD "")

namespace TextTable

def columnWidths (t : TextTable) : List Nat :=
  t.rows.foldl (fun widths row => List.zipWith max widths (row.map TableCell.width))
    (t.head.map TableCell.width)

def drawRows (widths : List Nat) (rows : List (List TableCell)) : List String :=
  [Rule.inner.draw widths].intercalate (rows.map (drawRow widths))

def draw (t : TextTable) : List String :=
  let widths := t.columnWidths
  Rule.top.draw widths :: drawRow widths t.head ++ Rule.head.draw widths ::
    drawRows widths t.rows ++ [Rule.bottom.draw widths]

end TextTable

end Questionnaire.Report
