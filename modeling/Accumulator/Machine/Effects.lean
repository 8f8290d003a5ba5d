import Accumulator.Machine.Basic
set_option autoImplicit false

/-! # A step, effect by effect

`Machine.step` gives the machine that a step leads to, and of a step that fails it gives the reason
alone. A machine that works in place changes one part of its state after the other, and what it has
changed stays so if a later part of the same step fails. `carryOut` is the step in this form: a cell
is read or written and its address noted, then the accumulator is set, and at the end the step is
counted.

The two forms agree (`carryOut_eq`). So a step that fails leaves nothing behind: it fails before its
first effect. A run is its steps carried out in a row (`run_cons`). -/

namespace Accumulator

namespace Outcome

variable {α β : Type}

/-- Goes on with the result and the machine. After an error nothing follows, and the machine stays
    as it is. -/
def andThen (first : Outcome α) (next : α → Machine → Outcome β) : Outcome β :=
  match first.result with
  | .ok a => next a first.machine
  | .error e => ⟨.error e, first.machine⟩

/-- The outcome with its result passed through a function. -/
def map (f : α → β) (o : Outcome α) : Outcome β := ⟨o.result.map f, o.machine⟩

end Outcome

namespace Machine

/-- Reads a cell. Its address is then the one used last. -/
def readCell (m : Machine) (address : Nat) : Outcome Cell :=
  match m.memory[address]? with
  | some cell => ⟨.ok cell, { m with lastAccess := some address }⟩
  | none => ⟨.error (m.outOfBounds address), m⟩

/-- Writes a cell. Its address is then the one used last. -/
def writeCell (m : Machine) (address : Nat) (cell : Cell) : Outcome Unit :=
  if address < m.memory.size then
    ⟨.ok (), { m with
      memory := m.memory.setIfInBounds address cell
      lastAccess := some address }⟩
  else ⟨.error (m.outOfBounds address), m⟩

/-- Sets the accumulator. -/
def setAccumulator (m : Machine) (cell : Cell) : Outcome Unit :=
  ⟨.ok (), { m with accumulator := cell }⟩

/-- Counts an instruction as completed. -/
def count (m : Machine) : Outcome Unit := ⟨.ok (), { m with executed := m.executed + 1 }⟩

/-- Does what an operation asks for, without counting it. -/
def operate (m : Machine) (op : Operation) (i : Instruction) : Outcome Unit :=
  match op with
  | .loadConstant => m.setAccumulator (Cell.ofOperand i.operand)
  | .loadMemory => (m.readCell i.address).andThen fun cell after => after.setAccumulator cell
  | .store => m.writeCell i.address m.accumulator
  | .equal =>
    (m.readCell i.address).andThen fun cell after =>
      after.setAccumulator (if after.accumulator = cell then 1 else 0)

/-- Carries one instruction out in place. -/
def carryOut (m : Machine) (i : Instruction) : Outcome Unit :=
  match i.operation? with
  | none => ⟨.error (.unknownOpcode i.opcode.toNat m.executed), m⟩
  | some op => (m.operate op i).andThen fun _ after => after.count

/-- An instruction that is carried out in place does a step, and one that fails does nothing. -/
theorem carryOut_eq (m : Machine) (i : Instruction) :
    m.carryOut i =
      match m.step i with
      | .ok next => ⟨.ok (), next⟩
      | .error e => ⟨.error e, m⟩ := by
  rw [carryOut, step]
  cases i.operation? with
  | none => rfl
  | some op =>
    cases op with
    | loadConstant => rfl
    | loadMemory =>
      simp only [operate, readCell]
      cases m.memory[i.address]? <;> rfl
    | equal =>
      simp only [operate, readCell]
      cases m.memory[i.address]? <;> rfl
    | store =>
      simp only [operate, writeCell]
      split <;> rfl

/-- A run carries out its instructions in a row. -/
theorem run_cons (m : Machine) (i : Instruction) (rest : Program) :
    m.run (i :: rest) = (m.carryOut i).andThen fun _ next => next.run rest := by
  rw [run, carryOut_eq]
  cases m.step i <;> rfl

theorem run_singleton (m : Machine) (i : Instruction) : m.run [i] = m.carryOut i := by
  rw [run_cons, carryOut_eq]
  cases m.step i <;> rfl

end Machine

end Accumulator
