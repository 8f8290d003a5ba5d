import Accumulator.Source
set_option autoImplicit false

/-! # The assembler

An assembler gathers the statements of any number of sources into one program and one log. A source
that is refused adds nothing, so the log always has one record for each instruction. -/

namespace Accumulator

/-- The instructions gathered so far, and their log. -/
structure Assembler where
  program : Program
  log : List LogRecord

namespace Assembler

/-- An assembler that has read nothing. -/
def empty : Assembler := ⟨[], []⟩

/-- The assembler with the given statements added. -/
def append (a : Assembler) (statements : List Statement) : Assembler :=
  ⟨a.program ++ statements.map Statement.instruction, a.log ++ statements.map Statement.record⟩

/-- Reads a source. Gives the whole program gathered so far, or the reason why the source was
    refused, and the assembler as it is afterwards. -/
def assemble (a : Assembler) (source : String) : Except Error Program × Assembler :=
  match Source.statements source with
  | .error e => (.error e, a)
  | .ok statements => (.ok (a.append statements).program, a.append statements)

/-- The bytes of the program gathered so far. -/
def binary (a : Assembler) : Bytes := Bytecode.encode a.program

/-- An assembler that had read nothing has the program of the source that it reads. -/
theorem program_of_assemble {source : String} {p : Program} (h : Source.assemble source = .ok p) :
    (empty.assemble source).2.program = p := by
  rw [assemble]
  rw [Source.assemble] at h
  cases hfound : Source.statements source with
  | error e => simp [hfound, Except.map] at h
  | ok found =>
    simp only [hfound, Except.map, Except.ok.injEq] at h
    simpa [append, empty] using h

end Assembler

end Accumulator
