import Accumulator.Machine.Display
import Accumulator.Source
set_option autoImplicit false

/-! # Running with a trace

A traced run tells what it does while it does it: the loaded program, then for each instruction the
operation and, once that is completed, the machine. An instruction that fails has told its operation
but shows no machine, and an opcode that is unknown has no operation to tell.

Tracing only adds the text: the outcome of a traced run is that of the plain one
(`outcome_runTraced`, `outcome_executeTraced`). -/

namespace Accumulator

/-- What a traced activity told, and what it came to. -/
structure Traced (α : Type) where
  text : String
  outcome : Outcome α

namespace Instruction

/-- The line that tells of an operation: on a number, or on the cell at an address. -/
def operationLine (op : Operation) (operand : Nat) : String :=
  match op with
  | .loadConstant => String.join ["load_constant(", operand.repr, ")\n"]
  | .loadMemory => String.join ["load_memory(M[", operand.repr, "])\n"]
  | .store => String.join ["store(M[", operand.repr, "])\n"]
  | .equal => String.join ["equal(M[", operand.repr, "])\n"]

/-- What is told of an instruction before it is carried out. -/
def announcement (i : Instruction) : String :=
  match i.operation? with
  | none => ""
  | some op => operationLine op i.address

end Instruction

namespace Machine

/-- Carries instructions out until the first one that fails, and tells of each. -/
def runTraced (m : Machine) : Program → Traced Unit
  | [] => ⟨"", .ok (), m⟩
  | i :: rest =>
    match m.step i with
    | .error e => ⟨i.announcement, .error e, m⟩
    | .ok next =>
      let later := next.runTraced rest
      ⟨String.join [i.announcement, next.display, "\n", later.text], later.outcome⟩

/-- What is told of a program that was loaded. -/
def programText (p : Program) : String :=
  String.join ["# Loaded Program\n", Source.disassemble p, "\n"]

/-- Runs the program in a stream, gives the cells of a window, and tells of the run. Of a stream
    that is refused there is nothing to tell. -/
def executeTraced (m : Machine) (bytes : Bytes) (w : Window) : Traced (List Cell) :=
  match m.load bytes with
  | .error e => ⟨"", .error e, m⟩
  | .ok p =>
    let run := m.runTraced p
    ⟨programText p ++ run.text, select w run.outcome⟩

/-- A traced run comes to what the plain one does. -/
@[simp]
theorem outcome_runTraced (m : Machine) (p : Program) : (m.runTraced p).outcome = m.run p := by
  induction p generalizing m with
  | nil => rfl
  | cons i p ih =>
    rw [runTraced, run]
    cases m.step i with
    | error e => rfl
    | ok next => exact ih next

/-- A traced execution comes to what the plain one does. -/
@[simp]
theorem outcome_executeTraced (m : Machine) (bytes : Bytes) (w : Window) :
    (m.executeTraced bytes w).outcome = m.execute bytes w := by
  unfold executeTraced execute
  cases m.load bytes with
  | error e => rfl
  | ok p => exact congrArg (select w) (m.outcome_runTraced p)

end Machine

end Accumulator
