import Accumulator.Machine.Basic
import Accumulator.Text.Table
set_option autoImplicit false

/-! # Showing a machine

A machine is shown as its accumulator, its count of completed instructions, and a table of its
memory. Most of a memory is zero, so the table has a row only for a cell that is not zero and for
the cell that was used last, which carries a mark. -/

namespace Accumulator.Machine

/-- The text in front of a cell; the one used last is marked. -/
def rowLabel (marked : Bool) (address : Nat) : String :=
  String.join [if marked then "* --> M[" else "M[", address.repr, "] ="]

/-- The row of a cell, if it has one. -/
def row? (m : Machine) (address : Nat) (cell : Cell) : Option (String × String) :=
  if m.lastAccess = some address then some (rowLabel true address, cell.render)
  else if cell = 0 then none
  else some (rowLabel false address, cell.render)

/-- The table of the memory, in the order of the addresses. -/
def table (m : Machine) : Text.Table :=
  ⟨("Address", "Contents"),
    m.memory.toList.zipIdx.filterMap fun (cell, address) => m.row? address cell⟩

/-- The text that shows a machine. -/
def display (m : Machine) : String :=
  String.join ["Accumulator: ", m.accumulator.render, "\tExecuted: ", m.executed.repr, "\n",
    m.table.render]

end Accumulator.Machine
