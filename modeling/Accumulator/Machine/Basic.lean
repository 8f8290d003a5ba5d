import Accumulator.Bytecode
import Accumulator.Cell
import Accumulator.Window
set_option autoImplicit false

/-! # The machine

A machine has one accumulator and a flat memory, and no way to jump: a program runs front to back
and ends at its end or at the first instruction that fails. An instruction fails if its opcode is
unknown or if it uses an address outside the memory, and one that fails changes nothing.

Besides its cells the machine counts the instructions that it has completed, over all programs it
was given, and remembers the address that a completed instruction used last. Errors are placed by
that count.

A run always hands back the machine, also when it fails, since what the earlier instructions did is
kept: see `Outcome`. -/

namespace Accumulator

/-- How a machine is set up: the number of its cells, and what it does with a stream that ends in
    the middle of an instruction. -/
structure Config where
  memorySize : Nat := 1024
  truncation : Truncation := .silent
deriving DecidableEq, Repr

/-- The state of a machine. -/
structure Machine where
  config : Config
  memory : Array Cell
  accumulator : Cell
  executed : Nat
  lastAccess : Option Nat
deriving DecidableEq

/-- What an activity on a machine comes to: its result, and the machine as it is afterwards. -/
structure Outcome (α : Type) where
  result : Except Error α
  machine : Machine

namespace Machine

/-! ## Setting a machine up -/

/-- A machine that has run nothing: all its cells are zero. -/
def fresh (config : Config) : Machine :=
  ⟨config, Array.replicate config.memorySize 0, 0, 0, none⟩

/-- The number of cells from which on a memory cannot be addressed in bytes: a cell has eight, and
    an object must be smaller than `2 ^ 63`. -/
def capacity : Nat := 0x1000000000000000

/-- A machine that has run nothing, if its memory can be set up. -/
def allocate (config : Config) : Except Error Machine :=
  if config.memorySize < capacity then .ok (fresh config) else .error .capacityOverflow

/-- The machine with the given cells put into its memory from an address on. Cells that would lie
    outside are left out, and no address counts as used. -/
def seed (m : Machine) (start : Nat) : List Cell → Machine
  | [] => m
  | cell :: cells =>
    seed { m with memory := m.memory.setIfInBounds start cell } (start + 1) cells

/-! ## Running -/

/-- The error of an instruction that uses an address outside the memory. -/
def outOfBounds (m : Machine) (address : Nat) : Error :=
  .outOfBounds address m.memory.size m.executed

/-- Carries one instruction out. -/
def step (m : Machine) (i : Instruction) : Except Error Machine :=
  match i.operation? with
  | none => .error (.unknownOpcode i.opcode.toNat m.executed)
  | some .loadConstant =>
    .ok { m with accumulator := Cell.ofOperand i.operand, executed := m.executed + 1 }
  | some .loadMemory =>
    match m.memory[i.address]? with
    | none => .error (m.outOfBounds i.address)
    | some cell =>
      .ok { m with
        accumulator := cell
        executed := m.executed + 1
        lastAccess := some i.address }
  | some .equal =>
    match m.memory[i.address]? with
    | none => .error (m.outOfBounds i.address)
    | some cell =>
      .ok { m with
        accumulator := if m.accumulator = cell then 1 else 0
        executed := m.executed + 1
        lastAccess := some i.address }
  | some .store =>
    if i.address < m.memory.size then
      .ok { m with
        memory := m.memory.setIfInBounds i.address m.accumulator
        executed := m.executed + 1
        lastAccess := some i.address }
    else .error (m.outOfBounds i.address)

/-- Carries instructions out until the first one that fails. -/
def run (m : Machine) : Program → Outcome Unit
  | [] => ⟨.ok (), m⟩
  | i :: rest =>
    match m.step i with
    | .ok next => next.run rest
    | .error e => ⟨.error e, m⟩

/-- The program in a stream. -/
def load (m : Machine) (bytes : Bytes) : Except Error Program :=
  Bytecode.decode m.config.truncation bytes

/-- The cells that a window selects, in the order of their addresses. -/
def cells (m : Machine) (w : Window) : List Cell :=
  let bounds := w.clamp m.memory.size
  (m.memory.extract bounds.1 bounds.2).toList

/-- The outcome of a run, with the cells of a window for its result. -/
def select (w : Window) (outcome : Outcome Unit) : Outcome (List Cell) :=
  ⟨outcome.result.map fun _ => outcome.machine.cells w, outcome.machine⟩

/-- Runs the program in a stream and gives the cells of a window. A stream that is refused runs
    nothing at all. -/
def execute (m : Machine) (bytes : Bytes) (w : Window) : Outcome (List Cell) :=
  match m.load bytes with
  | .error e => ⟨.error e, m⟩
  | .ok p => select w (m.run p)

/-- The cells that are not zero, with their addresses, in the order of the addresses. -/
def nonzero (m : Machine) : List (Nat × Cell) :=
  m.memory.toList.zipIdx.filterMap fun (cell, address) =>
    if cell = 0 then none else some (address, cell)

/-! ## What a step does -/

/-- The machines that a completed instruction leads to, one for each operation. -/
inductive Completes (m : Machine) (i : Instruction) : Machine → Prop
  | loadConstant : i.operation? = some .loadConstant →
      Completes m i { m with
        accumulator := Cell.ofOperand i.operand
        executed := m.executed + 1 }
  | loadMemory {cell : Cell} : i.operation? = some .loadMemory →
      m.memory[i.address]? = some cell →
      Completes m i { m with
        accumulator := cell
        executed := m.executed + 1
        lastAccess := some i.address }
  | equal {cell : Cell} : i.operation? = some .equal → m.memory[i.address]? = some cell →
      Completes m i { m with
        accumulator := if m.accumulator = cell then 1 else 0
        executed := m.executed + 1
        lastAccess := some i.address }
  | store : i.operation? = some .store → i.address < m.memory.size →
      Completes m i { m with
        memory := m.memory.setIfInBounds i.address m.accumulator
        executed := m.executed + 1
        lastAccess := some i.address }

/-- A step that succeeds does what its operation asks for. -/
theorem completes_of_step {m next : Machine} {i : Instruction} (h : m.step i = .ok next) :
    m.Completes i next := by
  unfold step at h
  split at h
  · simp at h
  · next hop =>
    obtain rfl := Except.ok.inj h
    exact .loadConstant hop
  · next hop =>
    split at h
    · simp at h
    · next cell hcell =>
      obtain rfl := Except.ok.inj h
      exact .loadMemory hop hcell
  · next hop =>
    split at h
    · simp at h
    · next cell hcell =>
      obtain rfl := Except.ok.inj h
      exact .equal hop hcell
  · next hop =>
    split at h
    · next hlt =>
      obtain rfl := Except.ok.inj h
      exact .store hop hlt
    · simp at h

/-- A step that succeeds keeps the size of the memory and the configuration, and counts itself. -/
theorem step_keeps {m next : Machine} {i : Instruction} (h : m.step i = .ok next) :
    next.memory.size = m.memory.size ∧ next.config = m.config ∧
      next.executed = m.executed + 1 := by
  cases completes_of_step h with
  | loadConstant => exact ⟨rfl, rfl, rfl⟩
  | loadMemory => exact ⟨rfl, rfl, rfl⟩
  | equal => exact ⟨rfl, rfl, rfl⟩
  | store => exact ⟨Array.size_setIfInBounds, rfl, rfl⟩

/-- A program that is cut in two runs as its two parts do, the second only if the first ends
    well. -/
theorem run_append (m : Machine) (p q : Program) :
    m.run (p ++ q) =
      match (m.run p).result with
      | .ok () => (m.run p).machine.run q
      | .error e => ⟨.error e, (m.run p).machine⟩ := by
  induction p generalizing m with
  | nil => rfl
  | cons i p ih =>
    rw [List.cons_append, run, run]
    cases m.step i with
    | error e => rfl
    | ok next => exact ih next

end Machine

end Accumulator
