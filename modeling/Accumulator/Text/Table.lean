set_option autoImplicit false

/-! # Tables of two columns

A table has a title for each of its two columns, and any number of rows. The left column is set
flush right and the right one flush left, each as wide as its widest text, title included, with one
blank on both sides of a text. A bar stands between the columns, a rule below the titles and another
one below the last row, and blanks take the place of a frame on the left and on the right.

Widths count characters, so the table is even where characters are equally wide. -/

namespace Accumulator.Text

/-- Two titles and the rows below them. -/
structure Table where
  titles : String × String
  rows : List (String × String)

namespace Table

/-- The width of the widest text. -/
def widest (texts : List String) : Nat := (texts.map String.length).foldr max 0

/-- The text with blanks in front of it, up to a width. -/
def flushRight (width : Nat) (text : String) : String :=
  String.ofList (text.toList.leftpad width ' ')

/-- The text with blanks behind it, up to a width. -/
def flushLeft (width : Nat) (text : String) : String :=
  String.ofList (text.toList.rightpad width ' ')

/-- The titles and the rows, all of which are set alike. -/
def entries (t : Table) : List (String × String) := t.titles :: t.rows

/-- The widths of the two columns. -/
def widths (t : Table) : Nat × Nat :=
  (widest (t.entries.map Prod.fst), widest (t.entries.map Prod.snd))

/-- The line of a row, for columns of the given widths. -/
def rowLine (widths : Nat × Nat) (row : String × String) : String :=
  String.join ["  ", flushRight widths.1 row.1, " │ ", flushLeft widths.2 row.2, "  \n"]

/-- A stroke of a rule. -/
def dashes (width : Nat) : String := String.ofList (List.replicate width '─')

/-- A rule below columns of the given widths, with the given sign where it meets the bar. -/
def ruleLine (widths : Nat × Nat) (joint : Char) : String :=
  String.join [" ", dashes (widths.1 + 2), String.singleton joint, dashes (widths.2 + 2), " \n"]

/-- The lines of a table. -/
def renderLines (t : Table) : List String :=
  [rowLine t.widths t.titles, ruleLine t.widths '┼'] ++ t.rows.map (rowLine t.widths)
    ++ [ruleLine t.widths '┴']

/-- The text of a table. -/
def render (t : Table) : String := String.join t.renderLines

end Table

end Accumulator.Text
