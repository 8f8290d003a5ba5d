import Accumulator.Cell
import Accumulator.Instruction
set_option autoImplicit false

/-! # The log of an assembly

The log has one record for each instruction, in program order. A record shows the mnemonic and the
opcode as encoded, but the operand as the source wrote it, which may be negative or wider than its
field. An instruction that was not read from a source is recorded with its encoded operand. -/

namespace Accumulator

/-- What the log says of one instruction. -/
structure LogRecord where
  mnemonic : String
  opcode : BitVec 4
  operand : Cell
deriving DecidableEq

namespace LogRecord

/-- The record of an instruction that was written with the given operand. -/
def ofWritten (i : Instruction) (operand : Cell) : LogRecord := ⟨i.mnemonic, i.opcode, operand⟩

/-- The record of an instruction of which only the encoding is known. -/
def ofInstruction (i : Instruction) : LogRecord := ofWritten i (Cell.ofOperand i.operand)

/-- The text of a record, its second and third lines indented. -/
def render (r : LogRecord) : String :=
  String.join ["mnemonic: ", r.mnemonic, "\n  opcode: ", r.opcode.toNat.repr, "\n  operand: ",
    r.operand.render]

end LogRecord

namespace Log

/-- The log of a program of which only the encoding is known. -/
def ofProgram (p : Program) : List LogRecord := p.map LogRecord.ofInstruction

/-- The text of a log. -/
def render (records : List LogRecord) : String :=
  Text.blockSequence (records.map LogRecord.render)

end Log

end Accumulator
