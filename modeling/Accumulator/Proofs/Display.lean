import Accumulator.Machine.Display
import Accumulator.Proofs.History
import Accumulator.Proofs.Reports
import Accumulator.Proofs.Text.Tables
set_option autoImplicit false

/-! # What is shown of a machine

A machine is shown by a heading and a table, and the table has a row for an address if its cell is
not zero or was used last (`Shows`). `Displayed` says what the whole text looks like, line by line.

Cells that are zero are left out, and a row is as wide as the widest one asks for. Still nothing is
lost: the rows can be read off the lines, a label tells an address and whether it was used last, and
an address without a row holds zero. So the text tells the accumulator, the count, the address that
was used last and, if the size of the memory is known, all cells (`display_tells_state`).

This would fail for a machine whose last address lies outside its memory, since that address has no
row. No command leads to such a machine. -/

namespace Accumulator

namespace Machine

open Text

/-! ## What is to be shown -/

/-- A machine that commands lead to, from one that was set up. -/
def Reachable (m : Machine) : Prop :=
  ∃ (config : Config) (commands : List Command), (fresh config).after commands = m

/-- The row of an address. -/
inductive Shows (m : Machine) (address : Nat) : String × String → Prop
  /-- The address was used last, and is marked. -/
  | used {cell : Cell} : m.lastAccess = some address → m.memory[address]? = some cell →
      Shows m address (String.join ["* --> M[", address.repr, "] ="], cell.toInt.repr)
  /-- The address was not used last, and its cell is not zero. -/
  | other {cell : Cell} : m.lastAccess ≠ some address → m.memory[address]? = some cell → cell ≠ 0 →
      Shows m address (String.join ["M[", address.repr, "] ="], cell.toInt.repr)

/-- The first line that shows a machine. -/
def heading (m : Machine) : String :=
  String.join ["Accumulator: ", m.accumulator.toInt.repr, "\tExecuted: ", m.executed.repr]

/-- How a machine is shown: the addresses that have a row, and the lines of the table. -/
structure Displayed (m : Machine) (shown : List Nat) (lines : List (List Char)) : Prop where
  /-- No address has two rows, and the rows are in the order of the addresses. -/
  increasing : shown.Pairwise (· < ·)
  /-- These are the addresses of the cells that are not zero, and the one that was used last. -/
  mem_iff : ∀ address, address ∈ shown ↔
    m.lastAccess = some address ∨ ∃ cell, m.memory[address]? = some cell ∧ cell ≠ 0
  rows : List.Forall₂ m.Shows shown m.table.rows
  laidOut : ∃ left right, m.table.LaidOut left right lines
  /-- All lines of the table are equally long. -/
  even : ∃ width, ∀ line ∈ lines, line.length = width
  /-- The heading stands above the table, and there is nothing else. -/
  text : Lines m.display.toList (m.heading.toList :: lines)

variable {m n : Machine} {address other : Nat} {cell : Cell} {row : String × String}

theorem Reachable.lt_of_lastAccess (h : m.Reachable) (haccess : m.lastAccess = some address) :
    address < m.memory.size := by
  obtain ⟨config, commands, rfl⟩ := h
  exact ((accounts_fresh config).after commands).access_lt address haccess

/-! ## Labels and contents -/

@[simp]
theorem toList_rowLabel (marked : Bool) (address : Nat) :
    (rowLabel marked address).toList =
      (if marked then "* --> M[" else "M[").toList ++
        (address.repr.toList ++ ']' :: [' ', '=']) := by
  simp [rowLabel]

/-- A label tells its address, and whether it is marked. -/
theorem rowLabel_injective {marked mark : Bool}
    (h : rowLabel marked address = rowLabel mark other) : marked = mark ∧ address = other := by
  have htext := congrArg String.toList h
  rw [toList_rowLabel, toList_rowLabel] at htext
  have hmark : marked = mark := by
    cases marked <;> cases mark <;> simp at htext ⊢
  subst hmark
  obtain ⟨hrepr, -⟩ := eq_and_eq_of_append_cons ((digits_repr address).not_mem (by decide))
    ((digits_repr other).not_mem (by decide)) (List.append_cancel_left htext)
  exact ⟨rfl, eq_of_repr_eq (String.toList_inj.1 hrepr)⟩

theorem not_mem_rowLabel {c : Char} (marked : Bool) (address : Nat) (hc : c.isDigit = false)
    (hlead : c ∉ "* --> M[".toList) (htail : c ∉ [']', ' ', '=']) :
    c ∉ (rowLabel marked address).toList := by
  intro hmem
  rw [toList_rowLabel] at hmem
  rcases List.mem_append.1 hmem with hmem | hmem
  · cases marked with
    | true => exact hlead hmem
    | false => exact hlead (List.mem_append_right "* --> ".toList hmem)
  · rcases List.mem_append.1 hmem with hmem | hmem
    · exact (digits_repr address).not_mem hc hmem
    · exact htail hmem

theorem legible_rowLabel (marked : Bool) (address : Nat) :
    Table.Legible (rowLabel marked address) where
  bar_not_mem := not_mem_rowLabel marked address (by decide) (by decide) (by decide)
  newline_not_mem := not_mem_rowLabel marked address (by decide) (by decide) (by decide)
  head_not_blank := by
    intro c hc
    rw [toList_rowLabel] at hc
    cases marked with
    | true =>
      obtain rfl : '*' = c := Option.some.inj hc
      decide
    | false =>
      obtain rfl : 'M' = c := Option.some.inj hc
      decide
  last_not_blank := by
    have hlast : (rowLabel marked address).toList.getLast? = some '=' := by
      simp [List.getLast?_append]
    intro c hc
    rw [hlast] at hc
    obtain rfl := Option.some.inj hc
    decide

theorem legible_render (cell : Cell) : Table.Legible cell.render :=
  Table.legible_of_isWord (numeral_repr cell.toInt).isWord
    ((numeral_repr cell.toInt).not_mem (by decide) (by decide) (by decide))

theorem legible_titles : Table.LegibleRow ("Address", "Contents") :=
  ⟨Table.legible_of_isWord (isWord_iff_all.2 ⟨by decide, by decide⟩) (by decide),
    Table.legible_of_isWord (isWord_iff_all.2 ⟨by decide, by decide⟩) (by decide)⟩

/-! ## Rows -/

/-- The row of an address tells the label and the cell. -/
theorem Shows.eq_row (h : m.Shows address row) :
    ∃ cell, m.memory[address]? = some cell ∧
      row = (rowLabel (decide (m.lastAccess = some address)) address, cell.render) := by
  rcases h with ⟨hlast, hcell⟩ | ⟨hlast, hcell, -⟩
  · exact ⟨_, hcell, by rw [decide_eq_true hlast]; rfl⟩
  · exact ⟨_, hcell, by rw [decide_eq_false hlast]; rfl⟩

/-- A row tells its address, whether it was used last, and what its cell holds. -/
theorem Shows.told (h : m.Shows address row) (h' : n.Shows other row) :
    other = address ∧ (n.lastAccess = some other ↔ m.lastAccess = some address) ∧
      n.memory[other]? = m.memory[address]? := by
  obtain ⟨cell, hcell, rfl⟩ := h.eq_row
  obtain ⟨cell', hcell', hrow⟩ := h'.eq_row
  rw [Prod.mk.injEq] at hrow
  obtain ⟨hmark, haddress⟩ := rowLabel_injective hrow.1
  refine ⟨haddress.symm, ?_, ?_⟩
  · rw [← decide_eq_decide]
    exact hmark.symm
  · rw [hcell, hcell', Cell.eq_of_render_eq hrow.2]

theorem Shows.legibleRow (h : m.Shows address row) : Table.LegibleRow row := by
  obtain ⟨cell, -, rfl⟩ := h.eq_row
  exact ⟨legible_rowLabel _ _, legible_render cell⟩

theorem row?_eq_some_iff (hcell : m.memory[address]? = some cell) :
    m.row? address cell = some row ↔ m.Shows address row := by
  unfold row?
  constructor
  · intro h
    split at h
    · next hlast =>
      obtain rfl := Option.some.inj h
      exact .used hlast hcell
    · next hlast =>
      split at h
      · simp at h
      · next hzero =>
        obtain rfl := Option.some.inj h
        exact .other hlast hcell hzero
  · intro h
    rcases h with ⟨hlast, hfound⟩ | ⟨hlast, hfound, hzero⟩
    · rw [hcell] at hfound
      obtain rfl := Option.some.inj hfound
      rw [if_pos hlast]
      rfl
    · rw [hcell] at hfound
      obtain rfl := Option.some.inj hfound
      rw [if_neg hlast, if_neg hzero]
      rfl

/-- In a machine whose last address lies inside the memory, this address has a row, and so has that
    of a cell that is not zero. -/
theorem exists_shows_iff (hlt : ∀ address, m.lastAccess = some address → address < m.memory.size) :
    (∃ row, m.Shows address row) ↔
      m.lastAccess = some address ∨ ∃ cell, m.memory[address]? = some cell ∧ cell ≠ 0 := by
  constructor
  · rintro ⟨row, ⟨hlast, -⟩ | ⟨-, hcell, hzero⟩⟩
    · exact .inl hlast
    · exact .inr ⟨_, hcell, hzero⟩
  · intro h
    by_cases hlast : m.lastAccess = some address
    · exact ⟨_, .used hlast (Array.getElem?_eq_getElem (hlt address hlast))⟩
    · obtain ⟨cell, hcell, hzero⟩ := h.resolve_left hlast
      exact ⟨_, .other hlast hcell hzero⟩

/-! ## The table -/

/-- What a list is mapped to, item by item, where it is mapped at all. -/
theorem forall₂_filterMap {α β : Type} {f : α → Option β} {related : α → β → Prop} {items : List α}
    (h : ∀ a ∈ items, ∀ b, f a = some b → related a b) :
    List.Forall₂ related (items.filter fun a => (f a).isSome) (items.filterMap f) := by
  induction items with
  | nil => exact .nil
  | cons a items ih =>
    obtain ⟨ha, hitems⟩ := List.forall_mem_cons.1 h
    cases hf : f a with
    | none =>
      rw [List.filterMap_cons_none hf, List.filter_cons_of_neg (by simp [hf])]
      exact ih hitems
    | some b =>
      rw [List.filterMap_cons_some hf, List.filter_cons_of_pos (by simp [hf])]
      exact .cons (ha b hf) (ih hitems)

/-- The addresses that have a row. -/
def shown (m : Machine) : List Nat :=
  (m.memory.toList.zipIdx.filter fun (cell, address) => (m.row? address cell).isSome).map Prod.snd

theorem mem_zipIdx_iff : (cell, address) ∈ m.memory.toList.zipIdx ↔
    m.memory[address]? = some cell := by
  rw [List.mk_mem_zipIdx_iff_getElem?, Array.getElem?_toList]

theorem shows_iff_exists_cell :
    m.Shows address row ↔
      ∃ cell, (cell, address) ∈ m.memory.toList.zipIdx ∧ m.row? address cell = some row := by
  constructor
  · intro h
    obtain ⟨cell, hcell, -⟩ := h.eq_row
    exact ⟨cell, mem_zipIdx_iff.2 hcell, (row?_eq_some_iff hcell).2 h⟩
  · intro h
    obtain ⟨cell, hmem, hrow⟩ := h
    exact (row?_eq_some_iff (mem_zipIdx_iff.1 hmem)).1 hrow

theorem forall₂_shows (m : Machine) : List.Forall₂ m.Shows m.shown m.table.rows := by
  rw [shown, List.forall₂_map_left_iff]
  apply forall₂_filterMap
  intro item hmem row hrow
  exact shows_iff_exists_cell.2 ⟨item.1, hmem, hrow⟩

theorem pairwise_shown (m : Machine) : m.shown.Pairwise (· < ·) := by
  have hsub : m.shown.Sublist (m.memory.toList.zipIdx.map Prod.snd) := List.filter_sublist.map _
  rw [List.zipIdx_map_snd] at hsub
  exact (List.pairwise_lt_range' 1).sublist hsub

theorem mem_shown_iff : address ∈ m.shown ↔ ∃ row, m.Shows address row := by
  constructor
  · intro h
    obtain ⟨item, hitem, rfl⟩ := List.mem_map.1 h
    obtain ⟨hmem, hrow⟩ := List.mem_filter.1 hitem
    obtain ⟨row, hrow⟩ := Option.isSome_iff_exists.1 hrow
    exact ⟨row, shows_iff_exists_cell.2 ⟨item.1, hmem, hrow⟩⟩
  · intro h
    obtain ⟨row, h⟩ := h
    obtain ⟨cell, hmem, hrow⟩ := shows_iff_exists_cell.1 h
    have hsome : (m.row? address cell).isSome := by rw [hrow]; rfl
    exact List.mem_map.2 ⟨(cell, address), List.mem_filter.2 ⟨hmem, hsome⟩, rfl⟩

theorem mem_rows_iff : row ∈ m.table.rows ↔ ∃ address, m.Shows address row := by
  constructor
  · intro h
    obtain ⟨item, hmem, hrow⟩ := List.mem_filterMap.1 h
    exact ⟨item.2, shows_iff_exists_cell.2 ⟨item.1, hmem, hrow⟩⟩
  · intro h
    obtain ⟨address, h⟩ := h
    obtain ⟨cell, hmem, hrow⟩ := shows_iff_exists_cell.1 h
    exact List.mem_filterMap.2 ⟨(cell, address), hmem, hrow⟩

theorem legible_entries (m : Machine) : ∀ row ∈ m.table.entries, Table.LegibleRow row := by
  refine List.forall_mem_cons.2 ⟨legible_titles, ?_⟩
  intro row hrow
  obtain ⟨address, h⟩ := mem_rows_iff.1 hrow
  exact h.legibleRow

/-- A row of one table is the row of the same address in every table that has it. -/
theorem shows_of_rows_eq (h : n.table.rows = m.table.rows) (hrow : m.Shows address row) :
    n.Shows address row := by
  have hmem : row ∈ n.table.rows := h ▸ mem_rows_iff.2 ⟨address, hrow⟩
  obtain ⟨other, hother⟩ := mem_rows_iff.1 hmem
  rwa [(hrow.told hother).1] at hother

/-! ## The heading -/

theorem toList_heading (m : Machine) :
    m.heading.toList = "Accumulator: ".toList ++ (m.accumulator.toInt.repr.toList ++
      '\t' :: ("Executed: ".toList ++ m.executed.repr.toList)) := by
  simp [heading]

theorem toList_display (m : Machine) :
    m.display.toList = m.heading.toList ++ '\n' :: m.table.render.toList := by
  simp [display, heading, Cell.render]

theorem newline_not_mem_heading (m : Machine) : '\n' ∉ m.heading.toList := by
  rw [toList_heading]
  simp only [List.mem_append, List.mem_cons, not_or]
  exact ⟨by decide, m.accumulator.newline_not_mem_render, by decide, by decide,
    (digits_repr m.executed).isWord.newline_not_mem⟩

theorem getLast?_heading_ne (m : Machine) : m.heading.toList.getLast? ≠ some '\r' := by
  have hexecuted := (digits_repr m.executed).isWord
  have hsplit : m.heading.toList = ("Accumulator: ".toList ++ m.accumulator.toInt.repr.toList ++
      '\t' :: "Executed: ".toList) ++ m.executed.repr.toList := by
    rw [toList_heading]
    simp only [List.append_assoc, List.cons_append]
  rw [hsplit, List.getLast?_append_of_ne_nil _ hexecuted.1]
  intro hlast
  exact absurd (hexecuted.getLast? _ hlast) (by decide)

/-- The heading tells the accumulator and the count. -/
theorem eq_of_heading_eq (h : n.heading = m.heading) :
    n.accumulator = m.accumulator ∧ n.executed = m.executed := by
  have htab : ∀ cell : Cell, '\t' ∉ cell.toInt.repr.toList := fun cell =>
    (numeral_repr cell.toInt).not_mem (by decide) (by decide) (by decide)
  have htext := congrArg String.toList h
  rw [toList_heading, toList_heading] at htext
  obtain ⟨haccumulator, hexecuted⟩ := eq_and_eq_of_append_cons (htab n.accumulator)
    (htab m.accumulator) (List.append_cancel_left htext)
  exact ⟨Cell.eq_of_render_eq (String.toList_inj.1 haccumulator),
    eq_of_repr_eq (String.toList_inj.1 (List.append_cancel_left hexecuted))⟩

/-! ## The whole text -/

/-- A machine that commands lead to is displayed with the rows of its table. -/
theorem Reachable.displayed (h : m.Reachable) : ∃ lines, m.Displayed m.shown lines := by
  obtain ⟨left, right, lines, hlaid, htext⟩ := m.table.exists_laidOut
  refine ⟨lines, m.pairwise_shown, ?_, m.forall₂_shows, ⟨left, right, hlaid⟩,
    ⟨left + right + 7, fun line hline => hlaid.length_eq hline⟩, ?_⟩
  · intro address
    rw [mem_shown_iff, exists_shows_iff fun _ => h.lt_of_lastAccess]
  · rw [toList_display, htext]
    exact .newline m.newline_not_mem_heading m.getLast?_heading_ne
      (lines_flatMap_newline (hlaid.closed m.legible_entries))

/-- Cells that are not zero are told by the rows, and so is the address that was used last. -/
theorem lastAccess_of_rows_eq (h : n.table.rows = m.table.rows) (hm : m.Reachable)
    (haccess : m.lastAccess = some address) : n.lastAccess = some address := by
  have hrow : m.Shows address _ :=
    .used haccess (Array.getElem?_eq_getElem (hm.lt_of_lastAccess haccess))
  exact (hrow.told (shows_of_rows_eq h hrow)).2.1.2 haccess

theorem getElem?_of_rows_eq (h : n.table.rows = m.table.rows)
    (hcell : m.memory[address]? = some cell) (hzero : cell ≠ 0) :
    n.memory[address]? = some cell := by
  have hshown : ∃ row, m.Shows address row := by
    by_cases hlast : m.lastAccess = some address
    · exact ⟨_, .used hlast hcell⟩
    · exact ⟨_, .other hlast hcell hzero⟩
  obtain ⟨row, hrow⟩ := hshown
  rw [(hrow.told (shows_of_rows_eq h hrow)).2.2, hcell]

/-- An address without a row holds zero, so the rows tell the whole memory if its size is known. -/
theorem memory_of_rows_eq (h : n.table.rows = m.table.rows)
    (hsize : n.memory.size = m.memory.size) : n.memory = m.memory := by
  apply Array.ext hsize
  intro address hn hm
  have hcell : ∀ cell : Cell, cell ≠ 0 → (n.memory[address] = cell ↔ m.memory[address] = cell) := by
    intro cell hzero
    constructor
    · intro hfound
      have hget := getElem?_of_rows_eq h.symm (Array.getElem?_eq_some_iff.2 ⟨hn, hfound⟩) hzero
      exact (Array.getElem?_eq_some_iff.1 hget).2
    · intro hfound
      have hget := getElem?_of_rows_eq h (Array.getElem?_eq_some_iff.2 ⟨hm, hfound⟩) hzero
      exact (Array.getElem?_eq_some_iff.1 hget).2
  by_cases hzero : m.memory[address] = 0
  · by_contra hne
    rw [hzero] at hne
    exact hne ((hcell _ hne).1 rfl ▸ hzero)
  · exact (hcell _ hzero).2 rfl

/-- **The text of a machine tells its state.** A machine that commands lead to is displayed as
    `Displayed` says: a heading and a table, with a row for each address whose cell is not zero and
    one, with a mark, for the address that was used last. If another such machine has a memory of
    the same size and is displayed by the same text, its accumulator, its count, the address that
    was used last and all its cells are the same. -/
theorem display_tells_state (hm : m.Reachable) :
    (∃ shown lines, m.Displayed shown lines) ∧
    ∀ n : Machine, n.Reachable → n.memory.size = m.memory.size → n.display = m.display →
      n.accumulator = m.accumulator ∧ n.executed = m.executed ∧ n.lastAccess = m.lastAccess ∧
        n.memory = m.memory := by
  obtain ⟨lines, hlines⟩ := hm.displayed
  refine ⟨⟨m.shown, lines, hlines⟩, ?_⟩
  intro n hn hsize h
  have htext := congrArg String.toList h
  rw [toList_display, toList_display] at htext
  obtain ⟨hheading, htable⟩ := eq_and_eq_of_append_cons n.newline_not_mem_heading
    m.newline_not_mem_heading htext
  have hrows := Table.rows_eq_of_render_eq (String.toList_inj.1 htable) n.legible_entries
    m.legible_entries
  obtain ⟨haccumulator, hexecuted⟩ := eq_of_heading_eq (String.toList_inj.1 hheading)
  refine ⟨haccumulator, hexecuted, ?_, memory_of_rows_eq hrows hsize⟩
  apply Option.ext
  intro address
  exact ⟨lastAccess_of_rows_eq hrows.symm hn, lastAccess_of_rows_eq hrows hm⟩

/-- A machine that has loaded a zero: the row of this cell is there because of its mark, and the
    last cell, which is zero too, has none. -/
theorem display_tells_state_marked_zero :
    Reachable ⟨⟨4, .silent⟩, #[-5, 0, 7, 0], 0, 1, some 1⟩ ∧
    (∃ shown lines, Displayed ⟨⟨4, .silent⟩, #[-5, 0, 7, 0], 0, 1, some 1⟩ shown lines) ∧
    ∀ n : Machine, n.Reachable → n.memory.size = 4 →
      n.display = String.join [
        "Accumulator: 0\tExecuted: 1\n",
        "       Address │ Contents  \n",
        " ──────────────┼────────── \n",
        "        M[0] = │ -5        \n",
        "  * --> M[1] = │ 0         \n",
        "        M[2] = │ 7         \n",
        " ──────────────┴────────── \n"] →
      n.accumulator = 0 ∧ n.executed = 1 ∧ n.lastAccess = some 1 ∧ n.memory = #[-5, 0, 7, 0] := by
  have hreachable : Reachable ⟨⟨4, .silent⟩, #[-5, 0, 7, 0], 0, 1, some 1⟩ :=
    ⟨⟨4, .silent⟩, [.seed 0 [-5, 0, 7], .step (.ofOperation .loadMemory 1)], by rfl⟩
  obtain ⟨hdisplayed, htells⟩ := display_tells_state hreachable
  refine ⟨hreachable, hdisplayed, ?_⟩
  intro n hn hsize htext
  exact htells n hn hsize (htext.trans (by decide +kernel))

end Machine

end Accumulator
