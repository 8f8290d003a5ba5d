import Accumulator.Proofs.Diagnostics
import Accumulator.Proofs.Gathering
set_option autoImplicit false

/-! # Sources joined by a newline

A source that is put behind another one, with a newline between them, is read as it would be alone.
The one thing that shows where it stands is the number of the line in an error: it has grown by the
number of lines in front.

Lines are not easily joined, since the last line of a text is treated differently from the ones
before it: it needs no newline, a carriage return at its end stays, and it does not count at all if
it is empty. The pieces between newlines are joined as they are, and `statementsFrom_lines` says
that the same statements are read from the pieces of a text as from its lines: what the two differ
in is blank.

The main statement, `assemble_append_newline`, follows from two facts about any lines:
front and back are read one after the other (`statementsFrom_append`), and lines that are numbered
otherwise are read to the same statements, or refused with the same error at the other number
(`mapError_statementsFrom`). -/

namespace Accumulator

/-! ## The line of an error -/

namespace Error

/-- The source line that the error names. -/
def line? : Error → Option Nat
  | .badStatement line _ _ => some line
  | .unknownMnemonic line _ => line
  | .truncated .. | .unknownOpcode .. | .outOfBounds .. | .badWindow _ | .file _
  | .capacityOverflow => none

/-- The error with the source line that it names renumbered, and everything else as it is. -/
def mapLine (f : Nat → Nat) : Error → Error
  | .badStatement line text reason => .badStatement (f line) text reason
  | .unknownMnemonic line word => .unknownMnemonic (line.map f) word
  | .truncated offset length => .truncated offset length
  | .unknownOpcode opcode position => .unknownOpcode opcode position
  | .outOfBounds address size position => .outOfBounds address size position
  | .badWindow text => .badWindow text
  | .file cause => .file cause
  | .capacityOverflow => .capacityOverflow

end Error

/-! ## Lines under another number -/

namespace Statement

open Text

/-- What is read of a line depends on the line after trimming. -/
theorem ofLine_congr {line other : List Char} (h : trim line = trim other) (number : Nat) :
    ofLine number line = ofLine number other := by
  rw [ofLine, ofLine, h]

theorem mapError_ofWords (f : Nat → Nat) (number : Nat) (body mnemonic operand : List Char) :
    (ofWords number body mnemonic operand).mapError (Error.mapLine f) =
      ofWords (f number) body mnemonic operand := by
  rw [ofWords, ofWords]
  cases Operation.ofMnemonic? (String.ofList mnemonic) with
  | none => rfl
  | some operation =>
    cases Operand.ofChars? operand with
    | none => rfl
    | some operand => rfl

/-- The number of a line shows in its error and nowhere else. -/
theorem mapError_ofLine (f : Nat → Nat) (number : Nat) (line : List Char) :
    (ofLine number line).mapError (Error.mapLine f) = ofLine (f number) line := by
  rw [ofLine, ofLine]
  split
  · rfl
  · split
    · rfl
    · next first second _ =>
      rw [← mapError_ofWords]
      cases ofWords number (trim line) first second <;> rfl
    · rfl

theorem line?_of_ofLine {number : Nat} {line : List Char} {e : Error}
    (h : ofLine number line = .error e) : e.line? = some number := by
  obtain ⟨runs, hruns⟩ := exists_runs line
  cases Source.diagnosis_of_ofLine hruns h <;> rfl

end Statement

namespace Source

open Text

theorem mapError_followedBy (f : Error → Error) (first second : Except Error (List Statement)) :
    (followedBy first second).mapError f =
      followedBy (first.mapError f) (second.mapError f) := by
  cases first with
  | error e => rfl
  | ok found => cases second <;> rfl

/-- Lines that are trimmed alike are read alike. -/
theorem statementsFrom_congr {lines other : List (List Char)} (h : lines.map trim = other.map trim)
    (number : Nat) : statementsFrom number lines = statementsFrom number other := by
  induction lines generalizing other number with
  | nil =>
    rw [List.map_nil, eq_comm, List.map_eq_nil_iff] at h
    rw [h]
  | cons line later ih =>
    obtain ⟨line', later', rfl, hline, hlater⟩ := List.map_eq_cons_iff.1 h.symm
    rw [statementsFrom_cons, statementsFrom_cons, ih hlater.symm, Statement.ofLine_congr hline]

/-- Lines with other numbers are read to the same statements, or refused with the same error at the
    other number. -/
theorem mapError_statementsFrom {f : Nat → Nat} {lines : List (List Char)} {number other : Nat}
    (h : ∀ i < lines.length, f (number + i) = other + i) :
    (statementsFrom number lines).mapError (Error.mapLine f) = statementsFrom other lines := by
  induction lines generalizing number other with
  | nil => rfl
  | cons line later ih =>
    have hline : f number = other := h 0 (by simp)
    have hlater : ∀ i < later.length, f (number + 1 + i) = other + 1 + i := by
      intro i hi
      have hnext := h (i + 1) (by simpa using hi)
      rwa [Nat.add_comm i 1, ← Nat.add_assoc, ← Nat.add_assoc] at hnext
    rw [statementsFrom_cons, statementsFrom_cons, mapError_followedBy, ih hlater, ← hline,
      ← Statement.mapError_ofLine]
    cases Statement.ofLine number line <;> rfl

/-! ## Lines and pieces -/

theorem trim_dropReturn (line : List Char) : trim (dropReturn line) = trim line := by
  rw [dropReturn]
  split
  · next hreturn =>
    obtain ⟨rest, rfl⟩ := List.getLast?_eq_some_iff.1 hreturn
    rw [List.dropLast_concat]
    exact (trim_surround blanks_nil blanks_return rest).symm
  · rfl

theorem statementsFrom_linesOfPieces (number : Nat) (pieces : List (List Char)) :
    statementsFrom number (linesOfPieces pieces) = statementsFrom number pieces := by
  fun_induction linesOfPieces pieces generalizing number with
  | case1 => rfl
  | case2 => rfl
  | case3 last hlast => rfl
  | case4 closed next rest ih =>
    rw [statementsFrom_cons, statementsFrom_cons number closed, ih,
      Statement.ofLine_congr (trim_dropReturn closed)]

/-- The lines of a text are read as its pieces are. -/
theorem statementsFrom_lines (number : Nat) (text : List Char) :
    statementsFrom number (lines text) = statementsFrom number (text.splitOn '\n') :=
  statementsFrom_linesOfPieces number _

theorem statements_eq_statementsFrom_splitOn (source : String) :
    statements source = statementsFrom 1 (source.toList.splitOn '\n') :=
  statementsFrom_lines 1 _

/-- There is one piece more than there are newlines. -/
theorem length_splitOn_newline (text : List Char) :
    (text.splitOn '\n').length = text.count '\n' + 1 := by
  induction text with
  | nil => rfl
  | cons c text ih =>
    rw [List.splitOn_cons_eq_if_modifyHead]
    by_cases hc : c = '\n'
    · simp [hc, ih]
    · simp [hc, ih, List.count_cons_of_ne]

theorem statementsFrom_splitOn_append (number : Nat) (front back : List Char) :
    statementsFrom number ((front ++ '\n' :: back).splitOn '\n') =
      followedBy (statementsFrom number (front.splitOn '\n'))
        (statementsFrom (number + (front.count '\n' + 1)) (back.splitOn '\n')) := by
  rw [List.splitOn_append_cons_self, statementsFrom_append, length_splitOn_newline]

/-- The statements of two sources with a newline between them. -/
theorem statements_append_newline (front back : String) :
    statements (front ++ "\n" ++ back) =
      followedBy (statements front)
        ((statements back).mapError (Error.mapLine (· + (front.toList.count '\n' + 1)))) := by
  have htext : (front ++ "\n" ++ back).toList = front.toList ++ '\n' :: back.toList := by
    simp
  have hback : (statements back).mapError (Error.mapLine (· + (front.toList.count '\n' + 1))) =
      statementsFrom (1 + (front.toList.count '\n' + 1)) (back.toList.splitOn '\n') := by
    rw [statements_eq_statementsFrom_splitOn]
    apply mapError_statementsFrom
    intro i _
    omega
  rw [hback, statements_eq_statementsFrom_splitOn, statements_eq_statementsFrom_splitOn, htext,
    statementsFrom_splitOn_append]

/-- A newline at the end of a source makes no difference. -/
theorem assemble_newline (source : String) : assemble (source ++ "\n") = assemble source := by
  have hjoined := statements_append_newline source ""
  rw [String.append_empty] at hjoined
  have hempty : statements "" = .ok [] := by
    simp [statements, statementsFrom]
  rw [assemble, assemble, hjoined, hempty]
  cases statements source with
  | error e => rfl
  | ok found => simp [followedBy, Except.map, Except.mapError]

theorem exists_line?_of_assemble {source : String} {e : Error} (h : assemble source = .error e) :
    ∃ line, e.line? = some line := by
  rw [assemble, map_eq_error_iff, statements, statementsFrom_eq_error_iff] at h
  obtain ⟨front, line, back, -, -, hline⟩ := h
  exact ⟨_, Statement.line?_of_ofLine hline⟩

/-- **Sources are joined by a newline.** The first source is refused as it is alone. If it is not,
    the second one is, with the number of the line in its error increased by one more than there are
    newlines in the first one. If neither is refused, the programs are joined, and an assembler that
    is given the two sources one after another gathers what it gathers from both at once. -/
theorem assemble_append_newline (front back : String) :
    assemble (front ++ "\n" ++ back) =
      (match assemble front with
      | .error e => .error e
      | .ok p =>
        match assemble back with
        | .error e => .error (e.mapLine (· + (front.toList.count '\n' + 1)))
        | .ok q => .ok (p ++ q)) ∧
    (∀ e, assemble back = .error e → ∃ line, e.line? = some line) ∧
    ∀ p q, assemble front = .ok p → assemble back = .ok q → ∀ a : Assembler,
      ((a.assemble front).2.assemble back).2 = (a.assemble (front ++ "\n" ++ back)).2 := by
  refine ⟨?_, fun e => exists_line?_of_assemble, ?_⟩
  · rw [assemble, assemble, assemble, statements_append_newline]
    cases statements front with
    | error e => rfl
    | ok found =>
      cases statements back with
      | error e => rfl
      | ok later => simp [followedBy, Except.map, Except.mapError]
  · intro p q hp hq a
    rw [assemble, map_eq_ok_iff] at hp hq
    obtain ⟨found, hfound, -⟩ := hp
    obtain ⟨later, hlater, -⟩ := hq
    have hboth : statements (front ++ "\n" ++ back) = .ok (found ++ later) := by
      rw [statements_append_newline, hfound, hlater]
      rfl
    simp only [Assembler.assemble, hfound, hlater, hboth, Assembler.append_append]

end Source

end Accumulator
