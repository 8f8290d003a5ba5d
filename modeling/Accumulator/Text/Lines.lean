set_option autoImplicit false

/-! # Lines

A newline closes a line, and a carriage return directly before the newline belongs to it. So a text
that ends in a newline has no further line after it, and a carriage return at the very end of the
text, where no newline follows, is part of the last line.

Splitting at newlines gives one piece more than there are newlines: all pieces but the last were
closed by one. -/

namespace Accumulator.Text

/-- A line without the carriage return that its newline was written with. -/
def dropReturn (line : List Char) : List Char :=
  if line.getLast? = some '\r' then line.dropLast else line

/-- The lines of a text that was split at its newlines: each piece but the last was closed by a
    newline, and the last one is a line only if it holds something. -/
def linesOfPieces : List (List Char) → List (List Char)
  | [] => []
  | [last] => if last = [] then [] else [last]
  | closed :: next :: rest => dropReturn closed :: linesOfPieces (next :: rest)

/-- The lines of a text, without their ends. -/
def lines (text : List Char) : List (List Char) :=
  linesOfPieces (text.splitOn '\n')

@[simp]
theorem lines_nil : lines [] = [] := by
  simp [lines, linesOfPieces]

theorem linesOfPieces_append {front back : List (List Char)} (h : back ≠ []) :
    linesOfPieces (front ++ back) = front.map dropReturn ++ linesOfPieces back := by
  induction front with
  | nil => rfl
  | cons line front ih =>
    cases hrest : front ++ back with
    | nil => simp [h] at hrest
    | cons next rest => rw [List.cons_append, hrest, linesOfPieces, ← hrest, ih]; rfl

/-- A newline closes every line before it and opens the text after it. -/
theorem lines_append_newline (front back : List Char) :
    lines (front ++ '\n' :: back) = (front.splitOn '\n').map dropReturn ++ lines back := by
  rw [lines, List.splitOn_append_cons_self, linesOfPieces_append (List.splitOn_ne_nil _ _)]
  rfl

end Accumulator.Text
