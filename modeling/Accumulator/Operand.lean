import Accumulator.Cell
import Accumulator.Text.Decimal
set_option autoImplicit false

/-! # Operands as they are written

An operand is written as an integer of any size. Two things are kept of it. One is a *word* of
thirty-two bits, gathered digit by digit in arithmetic that wraps around, and negated if the sign
asks for it; the low bits that an instruction has room for come from there. The other is the
integer itself, as long as a cell can hold it, for the log to show. -/

namespace Accumulator

/-- What is kept of an operand that was written. -/
structure Operand where
  /-- The low thirty-two bits of the written integer. -/
  word : UInt32
  /-- The written integer, if a cell can hold it. -/
  literal : Option Cell
deriving DecidableEq, Repr

namespace Operand

/-- The word of a sequence of digits, the first digit the highest. -/
def wordOfDigits (digits : List Nat) : UInt32 :=
  digits.foldl (fun word digit => word * 10 + UInt32.ofNat digit) 0

/-- The word of an integer numeral. -/
def wordOf (numeral : List Char) : UInt32 :=
  let magnitude := wordOfDigits (numeral.filterMap Text.digit?)
  if numeral.head? = some '-' then -magnitude else magnitude

/-- Reads an operand, which is an integer numeral. -/
def ofChars? (text : List Char) : Option Operand :=
  (Text.integer? text).map fun value => ⟨wordOf text, Cell.ofInt? value⟩

end Operand

end Accumulator
