import Accumulator.Error
import Accumulator.Log
import Accumulator.Operand
import Accumulator.Text.Blank
set_option autoImplicit false

/-! # Statements

A line of assembly source holds nothing, a comment, or a *statement*: a mnemonic and an integer,
separated and surrounded by blanks. A comment takes the whole line and opens with `#`; further right
that sign is a character like any other.

The instruction of a statement has room for the low twenty-eight bits of the integer, and its log
record shows the integer itself as far as a cell can hold it.

A line is refused for the first of these reasons that applies: it is no list of words, it has not
two of them, its first word is no mnemonic, its second word is no integer. -/

namespace Accumulator

/-- An operation and the operand that was written for it. -/
structure Statement where
  operation : Operation
  operand : Operand
deriving DecidableEq, Repr

namespace Statement

/-! ## What a statement stands for -/

/-- The instruction that the statement assembles to. -/
def instruction (s : Statement) : Instruction :=
  Instruction.ofFields s.operation.code s.operand.word.toNat

/-- The log record of the statement: the written integer if a cell can hold it, else the operand of
    the instruction. -/
def record (s : Statement) : LogRecord :=
  LogRecord.ofWritten s.instruction
    (s.operand.literal.getD (Cell.ofOperand s.instruction.operand))

/-! ## Reading a line -/

/-- Whether a trimmed line holds no statement: it is empty, or it opens a comment. -/
def isIdle (body : List Char) : Bool := body.isEmpty || body.head? == some '#'

/-- The statement of two words. -/
def ofWords (line : Nat) (body mnemonic operand : List Char) : Except Error Statement :=
  match Operation.ofMnemonic? (String.ofList mnemonic) with
  | none => .error (.unknownMnemonic (some line) (String.ofList mnemonic))
  | some operation =>
    match Operand.ofChars? operand with
    | none =>
      .error (.badStatement line (String.ofList body) (Error.notAnInteger (String.ofList operand)))
    | some operand => .ok ⟨operation, operand⟩

/-- The statement of a line, if it holds one; the number of the line is for the error. -/
def ofLine (line : Nat) (text : List Char) : Except Error (Option Statement) :=
  let body := Text.trim text
  if isIdle body then .ok none
  else
    match Text.words.whole body with
    | none => .error (.badStatement line (String.ofList body) Error.noWords)
    | some [mnemonic, operand] => (ofWords line body mnemonic operand).map some
    | some words =>
      .error (.badStatement line (String.ofList body) (Error.wordCount words.length))

end Statement

end Accumulator
