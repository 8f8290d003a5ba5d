import Accumulator.Text.Sequence
set_option autoImplicit false

/-! # Cells

A cell is a signed number of sixty-four bits. The accumulator and every place of the memory hold
one, and so does the operand that a log record shows. The machine never computes with cells, it only
copies and compares them, so all that a cell needs is a way in from the numbers of a program and a
decimal text. -/

namespace Accumulator

/-- What the accumulator and a place of the memory hold. -/
abbrev Cell := Int64

namespace Cell

/-- The cell that holds an operand, which is never negative. -/
def ofOperand (operand : BitVec 28) : Cell := Int64.ofNat operand.toNat

/-- The cell that holds an integer, if it fits sixty-four bits. -/
def ofInt? (value : Int) : Option Cell :=
  if -9223372036854775808 ≤ value ∧ value ≤ 9223372036854775807 then some (Int64.ofInt value)
  else none

/-- The decimal text of a cell. -/
def render (cell : Cell) : String := cell.toInt.repr

/-- The text of a list of cells. -/
def renderList (cells : List Cell) : String := Text.blockSequence (cells.map render)

@[simp]
theorem toInt_ofOperand (operand : BitVec 28) : (ofOperand operand).toInt = operand.toNat := by
  have hlt := operand.isLt
  exact Int64.toInt_ofNat_of_lt (by omega)

theorem toInt_of_ofInt? {value : Int} {cell : Cell} (h : ofInt? value = some cell) :
    cell.toInt = value := by
  unfold ofInt? at h
  split at h
  · next hfits =>
    obtain rfl := Option.some.inj h
    exact Int64.toInt_ofInt_of_le (by omega) (by omega)
  · simp at h

end Cell

end Accumulator
