import Accumulator.Proofs.Joining
set_option autoImplicit false

/-! # The layout of a source

The layout of a source is everything that can be changed about it without touching a statement: the
blanks at the ends of a line, whether a newline is written with a carriage return, and lines that
hold nothing. `Padding` and `Insertion` are the single changes, and `Relaid` is any number of them
in a row, each made forwards or backwards. A line that is put in or taken out changes the numbers of
the lines behind it, so `Relaid` carries along where the number of a line has gone.

None of this makes a difference to what a source assembles to, or to why it is refused
(`assemble_relaid`). All that a change of layout does to the pieces between newlines is to surround
a piece with blanks (`Padding.map_trim_splitOn`), or to add a piece that holds nothing
(`Insertion.exists_pieces`). -/

namespace Accumulator

namespace Error

@[simp]
theorem mapLine_id (e : Error) : e.mapLine id = e := by
  cases e <;> simp [mapLine]

theorem line?_mapLine (f : Nat → Nat) (e : Error) : (e.mapLine f).line? = e.line?.map f := by
  cases e <;> rfl

@[simp]
theorem mapLine_mapLine (f g : Nat → Nat) (e : Error) :
    (e.mapLine f).mapLine g = e.mapLine (fun line => g (f line)) := by
  cases e <;> simp [mapLine, Function.comp_def]

end Error

namespace Text

/-! ## Where lines start and end -/

/-- A line starts behind the text: it is empty, or it ends in a newline. -/
def OpensLine (text : List Char) : Prop := text = [] ∨ text.getLast? = some '\n'

/-- A line ends in front of the text: it is empty, or it opens with a newline, which a carriage
    return may precede. -/
def ClosesLine (text : List Char) : Prop :=
  text = [] ∨ (∃ rest, text = '\n' :: rest) ∨ ∃ rest, text = '\r' :: '\n' :: rest

end Text

namespace Source

open Text

/-! ## Changes of layout -/

/-- The second text is the first one with more blanks around a line. -/
inductive Padding : List Char → List Char → Prop
  /-- A newline is written with a carriage return. -/
  | carriageReturn (before after : List Char) :
      Padding (before ++ '\n' :: after) (before ++ '\r' :: '\n' :: after)
  /-- Blanks are added where a line starts. -/
  | atStart {before blanks : List Char} (after : List Char) :
      OpensLine before → Blanks blanks → '\n' ∉ blanks →
        Padding (before ++ after) (before ++ (blanks ++ after))
  /-- Blanks are added where a line ends. -/
  | atEnd (before : List Char) {blanks after : List Char} :
      ClosesLine after → Blanks blanks → '\n' ∉ blanks →
        Padding (before ++ after) (before ++ (blanks ++ after))

/-- The second text is the first one with a further line behind the given number of lines, a line
    that is blank or a comment. -/
inductive Insertion : Nat → List Char → List Char → Prop
  /-- The line is put in where another line starts, or where one could start. -/
  | line {before line : List Char} (after : List Char) :
      OpensLine before → LineReads line none → '\n' ∉ line →
        Insertion (before.count '\n') (before ++ after) (before ++ (line ++ '\n' :: after))
  /-- The line is put in at the very end, and a newline in front of it. -/
  | last (text : List Char) {line : List Char} :
      LineReads line none → '\n' ∉ line →
        Insertion (text.count '\n' + 1) text (text ++ '\n' :: line)

/-- The number that a line has once another line was put in behind the first `n` lines. -/
def numberAfterInsertion (n line : Nat) : Nat := if line ≤ n then line else line + 1

/-- The number that a line has once the line behind the first `n` lines was taken out. -/
def numberAfterDeletion (n line : Nat) : Nat := if line ≤ n then line else line - 1

/-- The second text comes from the first one by changes of layout, and the function tells which
    number a line of the first text has in the second. -/
inductive Relaid : List Char → List Char → (Nat → Nat) → Prop
  | refl (text : List Char) : Relaid text text id
  | pad {text middle other : List Char} {f : Nat → Nat} :
      Relaid text middle f → Padding middle other → Relaid text other f
  | strip {text middle other : List Char} {f : Nat → Nat} :
      Relaid text middle f → Padding other middle → Relaid text other f
  | insert {text middle other : List Char} {f : Nat → Nat} {n : Nat} :
      Relaid text middle f → Insertion n middle other →
        Relaid text other (fun line => numberAfterInsertion n (f line))
  | delete {text middle other : List Char} {f : Nat → Nat} {n : Nat} :
      Relaid text middle f → Insertion n other middle →
        Relaid text other (fun line => numberAfterDeletion n (f line))

@[simp]
theorem numberAfterDeletion_numberAfterInsertion (n line : Nat) :
    numberAfterDeletion n (numberAfterInsertion n line) = line := by
  by_cases h : line ≤ n
  · simp only [numberAfterInsertion, numberAfterDeletion, if_pos h]
  · have hnext : ¬ line + 1 ≤ n := by omega
    simp only [numberAfterInsertion, numberAfterDeletion, if_neg h, if_neg hnext]
    omega

end Source

/-! ## Pieces between newlines -/

namespace Text

/-- Where a line starts, the pieces in front are separate from those behind. -/
theorem OpensLine.exists_pieces {before : List Char} (h : OpensLine before) :
    ∃ pieces : List (List Char), pieces.length = before.count '\n' ∧
      ∀ text, (before ++ text).splitOn '\n' = pieces ++ text.splitOn '\n' := by
  rcases h with rfl | hlast
  · exact ⟨[], rfl, fun _ => rfl⟩
  · obtain ⟨front, rfl⟩ := List.getLast?_eq_some_iff.1 hlast
    refine ⟨front.splitOn '\n', ?_, fun text => ?_⟩
    · rw [Source.length_splitOn_newline]
      simp
    · rw [List.append_assoc, List.singleton_append, List.splitOn_append_cons_self]

/-- A text ends in a line, which may be empty. -/
theorem exists_opensLine_append (text : List Char) :
    ∃ before line, text = before ++ line ∧ OpensLine before ∧ '\n' ∉ line := by
  by_cases hmem : '\n' ∈ text
  · obtain ⟨line, front, heq, hline⟩ := List.eq_append_cons_of_mem (List.mem_reverse.2 hmem)
    refine ⟨front.reverse ++ ['\n'], line.reverse, ?_, .inr (by simp), by simpa using hline⟩
    simpa using congrArg List.reverse heq
  · exact ⟨[], text, rfl, .inl rfl, hmem⟩

/-- What is put in front of a text joins its first piece, unless a newline is put there. -/
theorem exists_firstPiece (text : List Char) :
    ∃ (piece : List Char) (later : List (List Char)), ∀ front : List Char, '\n' ∉ front →
      (front ++ text).splitOn '\n' = (front ++ piece) :: later := by
  by_cases hmem : '\n' ∈ text
  · obtain ⟨piece, rest, rfl, hpiece⟩ := List.eq_append_cons_of_mem hmem
    refine ⟨piece, rest.splitOn '\n', fun front hfront => ?_⟩
    have hjoined : '\n' ∉ front ++ piece := by
      simp [hfront, hpiece]
    rw [← List.append_assoc, List.splitOn_append_cons_self, List.splitOn_eq_singleton hjoined]
    rfl
  · refine ⟨text, [], fun front hfront => List.splitOn_eq_singleton ?_⟩
    simp [hfront, hmem]

/-- Where a line ends, there is no more than a carriage return left of its piece. -/
theorem ClosesLine.exists_firstPiece {text : List Char} (h : ClosesLine text) :
    ∃ (piece : List Char) (later : List (List Char)), Blanks piece ∧
      ∀ front : List Char, '\n' ∉ front →
        (front ++ text).splitOn '\n' = (front ++ piece) :: later := by
  rcases h with rfl | ⟨rest, rfl⟩ | ⟨rest, rfl⟩
  · refine ⟨[], [], blanks_nil, fun front hfront => ?_⟩
    rw [List.append_nil, List.splitOn_eq_singleton hfront]
  · refine ⟨[], rest.splitOn '\n', blanks_nil, fun front hfront => ?_⟩
    rw [List.splitOn_append_cons_self, List.splitOn_eq_singleton hfront, List.append_nil]
    rfl
  · refine ⟨['\r'], rest.splitOn '\n', blanks_return, fun front hfront => ?_⟩
    have hjoined : '\n' ∉ front ++ ['\r'] := by
      simp [hfront]
    rw [show front ++ '\r' :: '\n' :: rest = (front ++ ['\r']) ++ '\n' :: rest by simp,
      List.splitOn_append_cons_self, List.splitOn_eq_singleton hjoined]
    rfl

end Text

namespace Source

open Text

/-- Blanks that are added where a line ends join the piece of that line. -/
theorem map_trim_splitOn_of_closesLine (before : List Char) {blanks after : List Char}
    (hafter : ClosesLine after) (hblanks : Blanks blanks) (hnewline : '\n' ∉ blanks) :
    ((before ++ after).splitOn '\n').map trim =
      ((before ++ (blanks ++ after)).splitOn '\n').map trim := by
  obtain ⟨front, line, rfl, hfront, hline⟩ := exists_opensLine_append before
  obtain ⟨pieces, -, hpieces⟩ := hfront.exists_pieces
  obtain ⟨piece, later, hpiece, hlater⟩ := hafter.exists_firstPiece
  have hpadded : '\n' ∉ line ++ blanks := by
    simp [hline, hnewline]
  have htrim : trim (line ++ blanks ++ piece) = trim (line ++ piece) := by
    rw [List.append_assoc]
    exact (trim_surround blanks_nil (hblanks.append hpiece) line).trans
      (trim_surround blanks_nil hpiece line).symm
  rw [List.append_assoc, List.append_assoc, ← List.append_assoc line, hpieces, hpieces,
    hlater line hline, hlater _ hpadded]
  simp only [List.map_append, List.map_cons, htrim]

/-- Padding leaves the pieces as they are but for blanks around them. -/
theorem Padding.map_trim_splitOn {text other : List Char} (h : Padding text other) :
    (text.splitOn '\n').map trim = (other.splitOn '\n').map trim := by
  cases h with
  | carriageReturn before after =>
    exact map_trim_splitOn_of_closesLine before (.inr (.inl ⟨after, rfl⟩)) blanks_return (by simp)
  | @atStart before blanks after hbefore hblanks hnewline =>
    obtain ⟨pieces, -, hpieces⟩ := hbefore.exists_pieces
    obtain ⟨piece, later, hlater⟩ := exists_firstPiece after
    have hplain : after.splitOn '\n' = piece :: later := hlater [] (by simp)
    have htrim : trim (blanks ++ piece) = trim piece := by
      have hsurround := trim_surround hblanks blanks_nil piece
      rwa [List.append_nil] at hsurround
    rw [hpieces, hpieces, hplain, hlater blanks hnewline]
    simp only [List.map_append, List.map_cons, htrim]
  | @atEnd before blanks after hafter hblanks hnewline =>
    exact map_trim_splitOn_of_closesLine before hafter hblanks hnewline

/-- An insertion adds a piece that holds nothing. -/
theorem Insertion.exists_pieces {n : Nat} {text other : List Char} (h : Insertion n text other) :
    ∃ front line back, front.length = n ∧ LineReads line none ∧
      text.splitOn '\n' = front ++ back ∧ other.splitOn '\n' = front ++ line :: back := by
  cases h with
  | @line before line after hbefore hidle hnewline =>
    obtain ⟨pieces, hlength, hpieces⟩ := hbefore.exists_pieces
    refine ⟨pieces, line, after.splitOn '\n', hlength, hidle, hpieces after, ?_⟩
    rw [hpieces, List.splitOn_append_cons_self, List.splitOn_eq_singleton hnewline]
    rfl
  | @last _ line hidle hnewline =>
    refine ⟨text.splitOn '\n', line, [], length_splitOn_newline text, hidle, by simp, ?_⟩
    rw [List.splitOn_append_cons_self, List.splitOn_eq_singleton hnewline]

/-! ## Reading a source that was laid out anew -/

theorem mapError_eq_ok_iff {α : Type} {f : Error → Error} {x : Except Error α} {a : α} :
    x.mapError f = .ok a ↔ x = .ok a := by
  cases x <;> simp [Except.mapError]

theorem mapError_eq_error_iff {α : Type} {f : Error → Error} {x : Except Error α} {e : Error} :
    x.mapError f = .error e ↔ ∃ cause, x = .error cause ∧ e = f cause := by
  cases x <;> simp [Except.mapError, eq_comm]

@[simp]
theorem mapError_mapLine_id (x : Except Error (List Statement)) :
    x.mapError (Error.mapLine id) = x := by
  cases x <;> simp [Except.mapError]

@[simp]
theorem mapError_mapLine_mapLine (f g : Nat → Nat) (x : Except Error (List Statement)) :
    (x.mapError (Error.mapLine f)).mapError (Error.mapLine g) =
      x.mapError (Error.mapLine fun line => g (f line)) := by
  cases x <;> simp [Except.mapError]

/-- A line that holds nothing has no influence but on the numbers of the lines behind it. -/
theorem statementsFrom_insert {line : List Char} (hidle : LineReads line none)
    (front back : List (List Char)) :
    statementsFrom 1 (front ++ line :: back) =
      (statementsFrom 1 (front ++ back)).mapError
        (Error.mapLine (numberAfterInsertion front.length)) := by
  have hfront : (statementsFrom 1 front).mapError
      (Error.mapLine (numberAfterInsertion front.length)) = statementsFrom 1 front := by
    apply mapError_statementsFrom
    intro i hi
    exact if_pos (by omega)
  have hback : (statementsFrom (1 + front.length) back).mapError
      (Error.mapLine (numberAfterInsertion front.length)) =
        statementsFrom (1 + front.length + 1) back := by
    apply mapError_statementsFrom
    intro i _
    rw [numberAfterInsertion, if_neg (by omega)]
    omega
  rw [statementsFrom_append, statementsFrom_append, statementsFrom_cons,
    Statement.ofLine_of_lineReads _ hidle, mapError_followedBy, hfront, hback]
  exact congrArg (followedBy _) (followedBy_ok_nil _)

theorem Insertion.statementsFrom_eq {n : Nat} {text other : List Char}
    (h : Insertion n text other) :
    statementsFrom 1 (other.splitOn '\n') =
      (statementsFrom 1 (text.splitOn '\n')).mapError (Error.mapLine (numberAfterInsertion n)) := by
  obtain ⟨front, line, back, rfl, hidle, htext, hother⟩ := h.exists_pieces
  rw [htext, hother, statementsFrom_insert hidle]

/-- A source that was laid out anew is read as before, or refused with the same error at the line
    that corresponds. -/
theorem Relaid.statementsFrom_eq {text other : List Char} {f : Nat → Nat}
    (h : Relaid text other f) :
    statementsFrom 1 (other.splitOn '\n') =
      (statementsFrom 1 (text.splitOn '\n')).mapError (Error.mapLine f) := by
  induction h with
  | refl => rw [mapError_mapLine_id]
  | pad _ hpadding ih => rw [← ih, statementsFrom_congr hpadding.map_trim_splitOn]
  | strip _ hpadding ih => rw [← ih, statementsFrom_congr hpadding.map_trim_splitOn]
  | insert _ hinsertion ih => rw [hinsertion.statementsFrom_eq, ih, mapError_mapLine_mapLine]
  | delete _ hinsertion ih =>
    -- the text before the deletion is the text after it with the line put in again
    rw [hinsertion.statementsFrom_eq] at ih
    rw [← mapError_mapLine_mapLine, ← ih, mapError_mapLine_mapLine]
    simp only [numberAfterDeletion_numberAfterInsertion]
    exact (mapError_mapLine_id _).symm

/-- **Layout makes no difference.** However the layout of a source is changed, it assembles to the
    same program. If it is refused, it is refused with the same error, and the line that the error
    names is the one that corresponds: its number has grown by the lines that were put in before it
    and fallen by those that were taken out. -/
theorem assemble_relaid {source other : String} {f : Nat → Nat}
    (h : Relaid source.toList other.toList f) :
    (∀ p, assemble other = .ok p ↔ assemble source = .ok p) ∧
    ∀ e, assemble other = .error e ↔
      ∃ cause line, assemble source = .error cause ∧ cause.line? = some line ∧
        e = cause.mapLine f ∧ e.line? = some (f line) := by
  have heq : assemble other = (assemble source).mapError (Error.mapLine f) := by
    rw [assemble, assemble, statements_eq_statementsFrom_splitOn,
      statements_eq_statementsFrom_splitOn, h.statementsFrom_eq]
    cases statementsFrom 1 (source.toList.splitOn '\n') <;> rfl
  rw [heq]
  refine ⟨fun p => mapError_eq_ok_iff, fun e => ?_⟩
  rw [mapError_eq_error_iff]
  constructor
  · rintro ⟨cause, hcause, rfl⟩
    obtain ⟨line, hline⟩ := exists_line?_of_assemble hcause
    refine ⟨cause, line, hcause, hline, rfl, ?_⟩
    rw [Error.line?_mapLine, hline, Option.map_some]
  · rintro ⟨cause, line, hcause, -, he, -⟩
    exact ⟨cause, hcause, he⟩

/-- A blank line is taken out, a comment is put in twice, and two lines are padded. What is wrong
    with the last line is then found one line further down. -/
theorem assemble_relaid_commented :
    ∃ f, Relaid "ldc 1\n\nst x".toList "#\n# one\n\tldc 1\r\nst x".toList f ∧ f 3 = 4 ∧
      (∀ p, assemble "#\n# one\n\tldc 1\r\nst x" = .ok p ↔ assemble "ldc 1\n\nst x" = .ok p) ∧
      ∀ e, assemble "#\n# one\n\tldc 1\r\nst x" = .error e ↔
        ∃ cause line, assemble "ldc 1\n\nst x" = .error cause ∧ cause.line? = some line ∧
          e = cause.mapLine f ∧ e.line? = some (f line) := by
  have hblank : Insertion 1 "ldc 1\nst x".toList "ldc 1\n\nst x".toList := by
    simpa using @Insertion.line "ldc 1\n".toList [] "st x".toList (.inr (by simp))
      (.blank blanks_nil) (by simp)
  have hone : Insertion 0 "ldc 1\nst x".toList "# one\nldc 1\nst x".toList := by
    simpa using @Insertion.line [] "# one".toList "ldc 1\nst x".toList (.inl rfl)
      (LineReads.comment blanks_nil) (by simp)
  have hbare : Insertion 0 "# one\nldc 1\nst x".toList "#\n# one\nldc 1\nst x".toList := by
    simpa using @Insertion.line [] ['#'] "# one\nldc 1\nst x".toList (.inl rfl)
      (LineReads.comment blanks_nil) (by simp)
  have htab : Padding "#\n# one\nldc 1\nst x".toList "#\n# one\n\tldc 1\nst x".toList := by
    simpa using @Padding.atStart "#\n# one\n".toList ['\t'] "ldc 1\nst x".toList (.inr (by simp))
      (blanks_singleton (by decide)) (by simp)
  have hreturn : Padding "#\n# one\n\tldc 1\nst x".toList
      "#\n# one\n\tldc 1\r\nst x".toList := by
    simpa using Padding.carriageReturn "#\n# one\n\tldc 1".toList "st x".toList
  have h := ((((Relaid.refl "ldc 1\n\nst x".toList).delete hblank).insert hone).insert hbare).pad
    htab |>.pad hreturn
  exact ⟨_, h, rfl, assemble_relaid h⟩

end Source

end Accumulator
