import Accumulator.Text.Lines
set_option autoImplicit false

/-! # How lines make up a text

`Lines` says, without splitting anything, what the lines of a text are: each line but the last was
closed by a newline, or by a carriage return and a newline, and no newline stands inside a line. The
last line may go without a newline if it is not empty. Every text has lines in exactly one way, and
they are the ones that `lines` finds (`lines_eq_iff`). -/

namespace Accumulator.Text

/-- The lines of a text. -/
inductive Lines : List Char → List (List Char) → Prop
  | nil : Lines [] []
  | last {line : List Char} : line ≠ [] → '\n' ∉ line → Lines line [line]
  | newline {line rest : List Char} {later : List (List Char)} :
      '\n' ∉ line → line.getLast? ≠ some '\r' → Lines rest later →
        Lines (line ++ '\n' :: rest) (line :: later)
  | returnNewline {line rest : List Char} {later : List (List Char)} :
      '\n' ∉ line → Lines rest later → Lines (line ++ '\r' :: '\n' :: rest) (line :: later)

theorem lines_append_newline_of_not_mem {line : List Char} (h : '\n' ∉ line) (rest : List Char) :
    lines (line ++ '\n' :: rest) = dropReturn line :: lines rest := by
  rw [lines_append_newline, List.splitOn_eq_singleton h]
  rfl

theorem lines_of_not_mem {line : List Char} (hne : line ≠ []) (h : '\n' ∉ line) :
    lines line = [line] := by
  rw [lines, List.splitOn_eq_singleton h, linesOfPieces, if_neg hne]

theorem dropReturn_of_getLast?_ne {line : List Char} (h : line.getLast? ≠ some '\r') :
    dropReturn line = line :=
  if_neg h

theorem dropReturn_append_return (line : List Char) : dropReturn (line ++ ['\r']) = line := by
  simp [dropReturn]

theorem lines_of_Lines {text : List Char} {found : List (List Char)} (h : Lines text found) :
    lines text = found := by
  induction h with
  | nil => exact lines_nil
  | last hne hline => exact lines_of_not_mem hne hline
  | newline hline hend _ ih =>
    rw [lines_append_newline_of_not_mem hline, dropReturn_of_getLast?_ne hend, ih]
  | @returnNewline line rest later hline _ ih =>
    have hpiece : '\n' ∉ line ++ ['\r'] := by simpa using hline
    rw [show line ++ '\r' :: '\n' :: rest = (line ++ ['\r']) ++ '\n' :: rest by simp,
      lines_append_newline_of_not_mem hpiece, dropReturn_append_return, ih]

/-- Lines that were closed by a newline, one after the other, are the lines of the whole. -/
theorem lines_flatMap_newline {found : List (List Char)}
    (h : ∀ line ∈ found, '\n' ∉ line ∧ line.getLast? ≠ some '\r') :
    Lines (found.flatMap (· ++ ['\n'])) found := by
  induction found with
  | nil => exact .nil
  | cons line later ih =>
    obtain ⟨hline, hlater⟩ := List.forall_mem_cons.1 h
    rw [List.flatMap_cons, List.append_assoc]
    exact .newline hline.1 hline.2 (ih hlater)

/-- Lines with a newline between any two are the lines of the whole, none of them being empty. -/
theorem lines_intercalate_newline {found : List (List Char)}
    (h : ∀ line ∈ found, line ≠ [] ∧ '\n' ∉ line ∧ line.getLast? ≠ some '\r') :
    Lines (['\n'].intercalate found) found := by
  induction found with
  | nil => exact .nil
  | cons line later ih =>
    obtain ⟨⟨hne, hline, hend⟩, hlater⟩ := List.forall_mem_cons.1 h
    cases later with
    | nil =>
      rw [List.intercalate_singleton]
      exact .last hne hline
    | cons next later =>
      rw [List.intercalate_cons_cons, List.append_assoc]
      exact .newline hline hend (ih hlater)

/-- Every text has lines. -/
theorem exists_Lines (text : List Char) : ∃ found, Lines text found := by
  by_cases hmem : '\n' ∈ text
  · -- the first newline closes the first line
    obtain ⟨piece, rest, heq, hpiece⟩ := List.eq_append_cons_of_mem hmem
    have hlt : rest.length < text.length := by
      rw [heq, List.length_append, List.length_cons]
      omega
    obtain ⟨later, hlater⟩ := exists_Lines rest
    rw [heq]
    by_cases hend : piece.getLast? = some '\r'
    · obtain ⟨line, rfl⟩ := List.getLast?_eq_some_iff.1 hend
      refine ⟨line :: later, ?_⟩
      rw [show (line ++ ['\r']) ++ '\n' :: rest = line ++ '\r' :: '\n' :: rest by simp]
      exact .returnNewline (fun h => hpiece (List.mem_append_left _ h)) hlater
    · exact ⟨piece :: later, .newline hpiece hend hlater⟩
  · by_cases hne : text = []
    · exact ⟨[], hne ▸ .nil⟩
    · exact ⟨[text], .last hne hmem⟩
termination_by text.length

/-- The lines that are found in a text are its lines. -/
theorem lines_eq_iff {text : List Char} {found : List (List Char)} :
    lines text = found ↔ Lines text found := by
  refine ⟨?_, lines_of_Lines⟩
  rintro rfl
  obtain ⟨found, hfound⟩ := exists_Lines text
  rwa [lines_of_Lines hfound]

end Accumulator.Text
