import Accumulator.Action
import Accumulator.Assembler
import Accumulator.Machine.Trace
import Accumulator.Text.Utf8
set_option autoImplicit false

/-! # File jobs

Two jobs connect the library to files. *Assembling* reads a source and writes its bytecode and its
log, in this order. *Interpreting* reads bytecode, runs it on a fresh machine and writes a window of
the memory.

A job reads its input completely and computes before it writes. So a source that is refused and a
program that fails write nothing, while a log that cannot be written leaves the bytecode behind. -/

namespace Accumulator.Job

/-- An assembler that has read the text in a file. -/
def compile (content : Bytes) : Except Error Assembler :=
  match Text.ofUtf8? content with
  | none => .error (.file .notText)
  | some text =>
    match Assembler.empty.assemble text with
    | (.error e, _) => .error e
    | (.ok _, assembler) => .ok assembler

/-- What is told of a source that was read. -/
def assembledLine (p : Program) : String :=
  String.join ["Assembled ", p.length.repr, " instructions.\n"]

/-- What is told of bytecode that was written. -/
def compiledLine (binary : Bytes) : String :=
  String.join ["Compiled to ", binary.length.repr, " bytes of bytecode.\n"]

/-- Assembles the source at one path; writes its bytecode to the next path and its log to the
    last. -/
def assemble (trace : Bool) (source binary log : String) : Action (Except Error Program) :=
  .read source fun
    | .error e => .done (.error (.file e))
    | .ok content =>
      match compile content with
      | .error e => .done (.error e)
      | .ok assembler =>
        .note trace (assembledLine assembler.program) <|
        .write binary assembler.binary fun
          | .error e => .done (.error (.file e))
          | .ok () =>
            .write log (Text.utf8 (Log.render assembler.log)) fun
              | .error e => .done (.error (.file e))
              | .ok () =>
                .note trace (compiledLine assembler.binary) <|
                .done (.ok assembler.program)

/-- Executes a stream, with a trace or without: what is told, and the outcome. -/
def execute (trace : Bool) (m : Machine) (bytes : Bytes) (w : Window) : Traced (List Cell) :=
  if trace then m.executeTraced bytes w else ⟨"", m.execute bytes w⟩

@[simp]
theorem outcome_execute (trace : Bool) (m : Machine) (bytes : Bytes) (w : Window) :
    (execute trace m bytes w).outcome = m.execute bytes w := by
  cases trace with
  | false => rfl
  | true => exact m.outcome_executeTraced bytes w

/-- Runs the bytecode at one path on a fresh machine and writes the cells of a window to another
    path. The result is the machine as the program left it. -/
def interpret (trace : Bool) (binary result : String) (w : Window) (config : Config) :
    Action (Except Error Machine) :=
  .read binary fun
    | .error e => .done (.error (.file e))
    | .ok bytes =>
      match Machine.allocate config with
      | .error e => .done (.error e)
      | .ok machine =>
        let run := execute trace machine bytes w
        .note trace run.text <|
        match run.outcome.result with
        | .error e => .done (.error e)
        | .ok cells =>
          .write result (Text.utf8 (Cell.renderList cells)) fun
            | .error e => .done (.error (.file e))
            | .ok () => .done (.ok run.outcome.machine)

end Accumulator.Job
