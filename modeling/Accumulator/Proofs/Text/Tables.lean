import Accumulator.Text.Table
import Accumulator.Proofs.Text.Lines
import Accumulator.Proofs.Text.Words
import Mathlib.Data.List.Forall2
set_option autoImplicit false

/-! # How tables are laid out

`LaidOut` says what the lines of a table are, for columns of given widths: a line for the titles, a
rule, a line for each row, and another rule. A width is that of the widest text of its column, so it
depends on all rows at once, and a change in one row can move all the others.

Nevertheless the lines tell the rows. The bar cuts a line in two, and the texts are found in the two
parts by taking away the blanks around them, however many there are. This asks of a text that it has
no bar in it and no blank at its ends (`Legible`), and it does not ask for the widths. So the rows
of two tables with the same lines are the same (`LaidOut.rows_eq`). -/

namespace Accumulator.Text

namespace Table

/-! ## The lines of a table -/

/-- The width of a column that has just enough room for its texts. -/
structure IsWidth (texts : List String) (width : Nat) : Prop where
  length_le : ∀ text ∈ texts, text.length ≤ width
  exists_length_eq : ∃ text ∈ texts, text.length = width

/-- A row as a line, for columns of the given widths: the left text flush right, the right one flush
    left, each with a blank on both sides, and the whole between two blanks. -/
inductive SetIn (left right : Nat) (row : String × String) : List Char → Prop
  | intro {front back : Nat} : front + row.1.length = left → row.2.length + back = right →
      SetIn left right row
        (([' ', ' '] ++ List.replicate front ' ') ++ (row.1.toList ++ [' ']) ++
          '│' :: ([' '] ++ (row.2.toList ++ (List.replicate back ' ' ++ [' ', ' ']))))

/-- A rule below columns of the given widths. -/
def rule (left right : Nat) (joint : Char) : List Char :=
  ' ' :: (List.replicate (left + 2) '─' ++ joint :: (List.replicate (right + 2) '─' ++ [' ']))

/-- The lines of a table whose columns have the given widths. -/
inductive LaidOut (t : Table) (left right : Nat) : List (List Char) → Prop
  | intro {title : List Char} {body : List (List Char)} :
      IsWidth (t.entries.map Prod.fst) left → IsWidth (t.entries.map Prod.snd) right →
      SetIn left right t.titles title → List.Forall₂ (SetIn left right) t.rows body →
        LaidOut t left right (title :: rule left right '┼' :: (body ++ [rule left right '┴']))

/-! ## Texts that can be told -/

/-- A text that can be told from what stands around it in a line. -/
structure Legible (text : String) : Prop where
  bar_not_mem : '│' ∉ text.toList
  newline_not_mem : '\n' ∉ text.toList
  head_not_blank : ∀ c ∈ text.toList.head?, isBlank c = false
  last_not_blank : ∀ c ∈ text.toList.getLast?, isBlank c = false

/-- A row of two such texts. -/
structure LegibleRow (row : String × String) : Prop where
  left : Legible row.1
  right : Legible row.2

variable {t u : Table} {left right left' right' : Nat} {row other : String × String}
  {line front back : List Char} {lines body : List (List Char)}
  {rows others : List (String × String)}

theorem blanks_replicate (n : Nat) : Blanks (List.replicate n ' ') := by
  intro c hc
  rw [List.eq_of_mem_replicate hc]
  decide

theorem Legible.trim_eq {text : String} (h : Legible text) (hfront : Blanks front)
    (hback : Blanks back) : trim (front ++ (text.toList ++ back)) = text.toList :=
  trim_append hfront hback h.head_not_blank h.last_not_blank

/-- A word is legible if there is no bar in it. -/
theorem legible_of_isWord {text : String} (h : IsWord text.toList) (hbar : '│' ∉ text.toList) :
    Legible text :=
  ⟨hbar, h.newline_not_mem, fun c hc => h.2 c (List.mem_of_mem_head? hc), h.getLast?⟩

theorem bar_not_mem_of_blanks (h : Blanks front) : '│' ∉ front := by
  intro hmem
  exact absurd (h _ hmem) (by decide)

theorem Legible.bar_not_mem_append {text : String} (h : Legible text) (hfront : Blanks front)
    (hback : Blanks back) : '│' ∉ front ++ (text.toList ++ back) := by
  simp [h.bar_not_mem, bar_not_mem_of_blanks hfront, bar_not_mem_of_blanks hback]

/-! ## One line -/

theorem SetIn.length_eq (h : SetIn left right row line) : line.length = left + right + 7 := by
  rcases h with ⟨hleft, hright⟩
  simp only [List.length_append, List.length_cons, List.length_replicate, List.length_nil,
    String.length_toList]
  omega

theorem SetIn.newline_not_mem (h : SetIn left right row line) (hrow : LegibleRow row) :
    '\n' ∉ line := by
  rcases h with ⟨-, -⟩
  simp [hrow.left.newline_not_mem, hrow.right.newline_not_mem]

theorem SetIn.getLast?_eq (h : SetIn left right row line) : line.getLast? = some ' ' := by
  rcases h with ⟨-, -⟩
  simp [List.getLast?_append, List.getLast?_cons]

/-- A line tells its row, whatever the widths are. -/
theorem SetIn.unique (h : SetIn left right row line) (h' : SetIn left' right' other line)
    (hrow : LegibleRow row) (hother : LegibleRow other) : row = other := by
  have hblank : Blanks [' '] := blanks_replicate 1
  have hfront : ∀ n, Blanks ([' ', ' '] ++ List.replicate n ' ') := fun n =>
    (blanks_replicate 2).append (blanks_replicate n)
  have hback : ∀ n, Blanks (List.replicate n ' ' ++ [' ', ' ']) := fun n =>
    (blanks_replicate n).append (blanks_replicate 2)
  rcases h with ⟨-, -⟩
  generalize hline : _ ++ (row.1.toList ++ _) ++ _ = line at h'
  rcases h' with ⟨-, -⟩
  obtain ⟨hleft, hright⟩ := eq_and_eq_of_append_cons
    (hrow.left.bar_not_mem_append (hfront _) hblank)
    (hother.left.bar_not_mem_append (hfront _) hblank) hline
  apply Prod.ext
  · apply String.toList_inj.1
    rw [← hrow.left.trim_eq (hfront _) hblank, hleft, hother.left.trim_eq (hfront _) hblank]
  · apply String.toList_inj.1
    rw [← hrow.right.trim_eq hblank (hback _), hright, hother.right.trim_eq hblank (hback _)]

theorem length_rule (left right : Nat) (joint : Char) :
    (rule left right joint).length = left + right + 7 := by
  simp only [rule, List.length_append, List.length_cons, List.length_replicate, List.length_nil]
  omega

/-! ## All lines -/

/-- The body of a table has lines of rows, and of nothing else. -/
theorem exists_setIn_of_mem (h : List.Forall₂ (SetIn left right) rows body) (hline : line ∈ body) :
    ∃ row ∈ rows, SetIn left right row line := by
  induction h with
  | nil => simp at hline
  | @cons row first rows body hfirst _ ih =>
    rcases List.mem_cons.1 hline with rfl | hline
    · exact ⟨row, List.mem_cons_self, hfirst⟩
    · obtain ⟨other, hmem, hother⟩ := ih hline
      exact ⟨other, List.mem_cons_of_mem row hmem, hother⟩

/-- A line of a table is a rule, or it is the line of a row or of the titles. -/
theorem LaidOut.rule_or_setIn (h : LaidOut t left right lines) (hline : line ∈ lines) :
    (∃ joint, (joint = '┼' ∨ joint = '┴') ∧ line = rule left right joint) ∨
      ∃ row ∈ t.entries, SetIn left right row line := by
  rcases h with @⟨title, body, -, -, htitle, hbody⟩
  simp only [List.mem_cons, List.mem_append, List.not_mem_nil, or_false] at hline
  rcases hline with rfl | rfl | hline | rfl
  · exact .inr ⟨t.titles, List.mem_cons_self, htitle⟩
  · exact .inl ⟨'┼', .inl rfl, rfl⟩
  · obtain ⟨row, hmem, hrow⟩ := exists_setIn_of_mem hbody hline
    exact .inr ⟨row, List.mem_cons_of_mem _ hmem, hrow⟩
  · exact .inl ⟨'┴', .inr rfl, rfl⟩

/-- All lines of a table are equally long. -/
theorem LaidOut.length_eq (h : LaidOut t left right lines) (hline : line ∈ lines) :
    line.length = left + right + 7 := by
  rcases h.rule_or_setIn hline with ⟨joint, -, rfl⟩ | ⟨row, -, hrow⟩
  · exact length_rule left right joint
  · exact hrow.length_eq

/-- No line of a table is broken, and none ends in a carriage return. -/
theorem LaidOut.closed (h : LaidOut t left right lines) (ht : ∀ row ∈ t.entries, LegibleRow row) :
    ∀ line ∈ lines, '\n' ∉ line ∧ line.getLast? ≠ some '\r' := by
  intro line hline
  rcases h.rule_or_setIn hline with ⟨joint, hjoint, rfl⟩ | ⟨row, hmem, hrow⟩
  · constructor
    · rcases hjoint with rfl | rfl
      · simp [rule]
      · simp [rule]
    · simp [rule, List.getLast?_append, List.getLast?_cons]
  · refine ⟨hrow.newline_not_mem (ht row hmem), ?_⟩
    rw [hrow.getLast?_eq]
    simp

theorem eq_of_forall₂_setIn (h : List.Forall₂ (SetIn left right) rows body)
    (h' : List.Forall₂ (SetIn left' right') others body) (hrows : ∀ row ∈ rows, LegibleRow row)
    (hothers : ∀ row ∈ others, LegibleRow row) : rows = others := by
  induction h generalizing others with
  | nil =>
    rcases h' with _ | _
    rfl
  | cons hrow _ ih =>
    rcases h' with _ | ⟨hother, hlater⟩
    rw [List.forall_mem_cons] at hrows hothers
    rw [hrow.unique hother hrows.1 hothers.1, ih hlater hrows.2 hothers.2]

/-- The lines of a table tell its rows. -/
theorem LaidOut.rows_eq (h : LaidOut t left right lines) (h' : LaidOut u left' right' lines)
    (ht : ∀ row ∈ t.rows, LegibleRow row) (hu : ∀ row ∈ u.rows, LegibleRow row) :
    t.rows = u.rows := by
  rcases h with @⟨_, body, -, -, -, hbody⟩
  generalize hlines : _ :: _ :: (body ++ _) = lines at h'
  rcases h' with @⟨_, body', -, -, -, hbody'⟩
  -- both tables have one rule after their rows, so the lines of their rows are the same
  simp only [List.cons.injEq] at hlines
  obtain rfl : body = body' := (List.append_inj' hlines.2.2 rfl).1
  exact eq_of_forall₂_setIn hbody hbody' ht hu

/-! ## The text of a table -/

theorem length_le_widest {texts : List String} {text : String} (h : text ∈ texts) :
    text.length ≤ widest texts := by
  induction texts with
  | nil => simp at h
  | cons first texts ih =>
    rw [widest, List.map_cons, List.foldr_cons]
    rcases List.mem_cons.1 h with rfl | h
    · exact Nat.le_max_left _ _
    · exact Nat.le_trans (ih h) (Nat.le_max_right _ _)

theorem isWidth_widest {texts : List String} (h : texts ≠ []) : IsWidth texts (widest texts) := by
  refine ⟨fun text => length_le_widest, ?_⟩
  induction texts with
  | nil => exact absurd rfl h
  | cons first texts ih =>
    have hwidest : widest (first :: texts) = max first.length (widest texts) := rfl
    rw [hwidest]
    by_cases hfirst : widest texts ≤ first.length
    · exact ⟨first, List.mem_cons_self, (Nat.max_eq_left hfirst).symm⟩
    · have hne : texts ≠ [] := by
        rintro rfl
        exact hfirst (Nat.zero_le _)
      obtain ⟨text, hmem, htext⟩ := ih hne
      refine ⟨text, List.mem_cons_of_mem first hmem, ?_⟩
      rw [htext, Nat.max_eq_right (by omega)]

@[simp]
theorem toList_ruleLine (widths : Nat × Nat) (joint : Char) :
    (ruleLine widths joint).toList = rule widths.1 widths.2 joint ++ ['\n'] := by
  simp [ruleLine, rule, dashes]

theorem exists_setIn {widths : Nat × Nat} (hleft : row.1.length ≤ widths.1)
    (hright : row.2.length ≤ widths.2) :
    ∃ line, SetIn widths.1 widths.2 row line ∧ (rowLine widths row).toList = line ++ ['\n'] := by
  refine ⟨_, .intro (Nat.sub_add_cancel hleft) (Nat.add_sub_cancel' hright), ?_⟩
  simp [rowLine, flushRight, flushLeft, List.leftpad, List.rightpad, String.length_toList]

theorem exists_body {widths : Nat × Nat}
    (h : ∀ row ∈ rows, row.1.length ≤ widths.1 ∧ row.2.length ≤ widths.2) :
    ∃ body, List.Forall₂ (SetIn widths.1 widths.2) rows body ∧
      (rows.map (rowLine widths)).flatMap String.toList = body.flatMap (· ++ ['\n']) := by
  induction rows with
  | nil => exact ⟨[], .nil, rfl⟩
  | cons row rows ih =>
    obtain ⟨hrow, hrows⟩ := List.forall_mem_cons.1 h
    obtain ⟨line, hline, htext⟩ := exists_setIn hrow.1 hrow.2
    obtain ⟨body, hbody, hlater⟩ := ih hrows
    refine ⟨line :: body, .cons hline hbody, ?_⟩
    rw [List.map_cons, List.flatMap_cons, List.flatMap_cons, htext, hlater]

/-- The text of a table is its lines, each closed by a newline. -/
theorem exists_laidOut (t : Table) :
    ∃ left right lines, LaidOut t left right lines ∧
      t.render.toList = lines.flatMap (· ++ ['\n']) := by
  have hfits : ∀ row ∈ t.entries, row.1.length ≤ t.widths.1 ∧ row.2.length ≤ t.widths.2 :=
    fun row hrow => ⟨length_le_widest (List.mem_map_of_mem hrow),
      length_le_widest (List.mem_map_of_mem hrow)⟩
  obtain ⟨htitles, hrows⟩ := List.forall_mem_cons.1 hfits
  obtain ⟨title, htitle, htext⟩ := exists_setIn htitles.1 htitles.2
  obtain ⟨body, hbody, hlines⟩ := exists_body hrows
  refine ⟨t.widths.1, t.widths.2, _,
    .intro (isWidth_widest (by simp [entries])) (isWidth_widest (by simp [entries])) htitle hbody,
    ?_⟩
  rw [render, renderLines, String.toList_join, List.flatMap_append, List.flatMap_append, hlines]
  simp [htext]

/-- Tables with the same text have the same rows. -/
theorem rows_eq_of_render_eq (h : t.render = u.render) (ht : ∀ row ∈ t.entries, LegibleRow row)
    (hu : ∀ row ∈ u.entries, LegibleRow row) : t.rows = u.rows := by
  obtain ⟨_, _, lines, hlaid, htext⟩ := t.exists_laidOut
  obtain ⟨_, _, lines', hlaid', htext'⟩ := u.exists_laidOut
  rw [h, htext'] at htext
  have hlines := lines_of_Lines (lines_flatMap_newline (hlaid.closed ht))
  rw [← htext, lines_of_Lines (lines_flatMap_newline (hlaid'.closed hu))] at hlines
  subst hlines
  exact hlaid.rows_eq hlaid' (List.forall_mem_cons.1 ht).2 (List.forall_mem_cons.1 hu).2

end Table

end Accumulator.Text
