import Accumulator.Bytecode
import Accumulator.Statement
import Accumulator.Text.Lines
set_option autoImplicit false

/-! # Assembly source

A source is read line by line, the first line being line one; its statements, in order, are its
program. The first line that is refused refuses the source.

Listing a program back writes one instruction a line. An instruction whose opcode is unknown is
listed too, as a line that no source may hold. -/

namespace Accumulator

namespace Source

/-- The statements of the given lines, the first of which has the given number. -/
def statementsFrom (line : Nat) : List (List Char) → Except Error (List Statement)
  | [] => .ok []
  | text :: rest =>
    match Statement.ofLine line text with
    | .error e => .error e
    | .ok found => (statementsFrom (line + 1) rest).map (found.toList ++ ·)

/-- The statements of a source. -/
def statements (source : String) : Except Error (List Statement) :=
  statementsFrom 1 (Text.lines source.toList)

/-- The program of a source. -/
def assemble (source : String) : Except Error Program :=
  (statements source).map (·.map Statement.instruction)

/-- The instruction of a single line of source, if it holds one. -/
def assembleLine (line : Nat) (text : String) : Except Error (Option Instruction) :=
  (Statement.ofLine line text.toList).map (·.map Statement.instruction)

/-- A program written as source, one instruction a line. -/
def disassemble (p : Program) : String := String.join (p.map fun i => String.join [i.render, "\n"])

end Source

end Accumulator
