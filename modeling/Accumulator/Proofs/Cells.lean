import Accumulator.Proofs.Completion
import Mathlib.Algebra.Group.Nat.Defs
import Mathlib.Data.List.Induction
set_option autoImplicit false

/-! # What cells hold after a run

Only a store changes a cell, it changes no other cell than the one it writes, and what it writes is
the accumulator (`getElem?_of_step`). So the last store wins: after a run a cell holds the
accumulator as the last completed store to it has found it, or, if there was none, what it held
before (`CellAfter`). The induction that shows it goes along the program from its end, since the
last store is the first one that is met from there. -/

namespace Accumulator

/-! ## Reading and writing -/

namespace Instruction

/-- Whether the instruction reads the cell at an address: it loads or compares it. -/
def Reads (i : Instruction) (address : Nat) : Prop :=
  (i.operation? = some .loadMemory ∨ i.operation? = some .equal) ∧ i.address = address

/-- Whether the instruction writes the cell at an address. -/
def Writes (i : Instruction) (address : Nat) : Prop :=
  i.operation? = some .store ∧ i.address = address

instance (i : Instruction) (address : Nat) : Decidable (i.Reads address) :=
  inferInstanceAs (Decidable ((_ ∨ _) ∧ _))

instance (i : Instruction) (address : Nat) : Decidable (i.Writes address) :=
  inferInstanceAs (Decidable (_ ∧ _))

variable {i : Instruction} {address : Nat}

theorem Reads.usesMemory (h : i.Reads address) : i.UsesMemory := by
  obtain ⟨hop | hop, -⟩ := h
  · exact (usesMemory_iff hop).2 (by decide)
  · exact (usesMemory_iff hop).2 (by decide)

theorem Writes.usesMemory (h : i.Writes address) : i.UsesMemory :=
  (usesMemory_iff h.1).2 (by decide)

/-- An operand has twenty-eight bits, and so has an address that an instruction can write. -/
theorem Writes.lt (h : i.Writes address) : address < 2 ^ 28 := by
  rw [← h.2]
  exact i.operand.isLt

end Instruction

namespace Program

/-- Whether an instruction of the program reads the cell at an address. -/
def Reads (p : Program) (address : Nat) : Prop := ∃ i ∈ p, i.Reads address

/-- Whether an instruction of the program writes the cell at an address. -/
def Writes (p : Program) (address : Nat) : Prop := ∃ i ∈ p, i.Writes address

instance (p : Program) (address : Nat) : Decidable (p.Reads address) :=
  inferInstanceAs (Decidable (∃ i ∈ p, _))

instance (p : Program) (address : Nat) : Decidable (p.Writes address) :=
  inferInstanceAs (Decidable (∃ i ∈ p, _))

@[simp]
theorem not_writes_nil (address : Nat) : ¬ Writes [] address := by
  simp [Writes]

@[simp]
theorem writes_cons {i : Instruction} {rest : Program} {address : Nat} :
    Writes (i :: rest) address ↔ i.Writes address ∨ rest.Writes address := by
  simp [Writes]

@[simp]
theorem writes_append {p q : Program} {address : Nat} :
    Writes (p ++ q) address ↔ p.Writes address ∨ q.Writes address := by
  simp [Writes, or_and_right, exists_or]

/-- Only addresses that the program uses can be written. -/
theorem forall_writes_iff {p : Program} {property : Nat → Prop} :
    (∀ address, p.Writes address → property address) ↔
      ∀ i ∈ p, p.Writes i.address → property i.address := by
  constructor
  · intro h i _ hi
    exact h i.address hi
  · rintro h address ⟨i, hmem, hi⟩
    have haddress := hi.2
    subst haddress
    exact h i hmem ⟨i, hmem, hi⟩

end Program

/-! ## One cell -/

namespace Machine

variable {m next : Machine} {i : Instruction} {done : Program} {address : Nat}

/-- A completed instruction writes the accumulator to the cell that it writes, and leaves every
    other cell as it is. -/
theorem getElem?_of_step (h : m.step i = .ok next) (address : Nat) :
    next.memory[address]? =
      if i.Writes address then some m.accumulator else m.memory[address]? := by
  cases completes_of_step h with
  | loadConstant hop => simp [Instruction.Writes, hop]
  | loadMemory hop hcell => simp [Instruction.Writes, hop]
  | equal hop hcell => simp [Instruction.Writes, hop]
  | store hop hlt => simp [Instruction.Writes, hop, Array.getElem?_setIfInBounds, hlt]

/-- What the cell at an address holds when a machine has completed the given instructions. -/
inductive CellAfter (m : Machine) (done : Program) (address : Nat) : Option Cell → Prop
  /-- None of them writes the cell, and it holds what it held before. -/
  | kept : ¬ done.Writes address → CellAfter m done address m.memory[address]?
  /-- It holds the accumulator as the last one that writes the cell has found it. -/
  | stored {front : Program} {i : Instruction} {back : Program} : done = front ++ i :: back →
      i.Writes address → ¬ back.Writes address →
        CellAfter m done address (some (m.run front).machine.accumulator)

theorem CellAfter.append_singleton {cell : Option Cell} (h : CellAfter m done address cell)
    (hi : ¬ i.Writes address) : CellAfter m (done ++ [i]) address cell := by
  cases h with
  | kept hdone =>
    refine .kept ?_
    simp [hdone, hi]
  | @stored front j back hdone hj hback =>
    refine .stored (by rw [hdone, List.append_assoc, List.cons_append]) hj ?_
    simp [hback, hi]

theorem CellAfter.eq_of_not_writes {cell : Option Cell} (h : CellAfter m done address cell)
    (hdone : ¬ done.Writes address) : cell = m.memory[address]? := by
  cases h with
  | kept => rfl
  | @stored front i back hsplit hi hback =>
    rw [hsplit, Program.writes_append, Program.writes_cons] at hdone
    exact absurd (.inr (.inl hi)) hdone

/-! ## A run -/

/-- The last store wins, in a run that reaches its end. -/
theorem cellAfter_of_ok (h : (m.run done).result = .ok ()) (address : Nat) :
    CellAfter m done address (m.run done).machine.memory[address]? := by
  induction done using List.reverseRecOn with
  | nil => exact .kept (Program.not_writes_nil address)
  | append_singleton front i ih =>
    have hfront := result_run_of_subset h (List.subset_append_left front [i])
    rw [run_append_of_ok hfront] at h ⊢
    obtain ⟨next, hstep, -⟩ := exists_step_of_run h
    rw [run_of_step hstep, run, getElem?_of_step hstep]
    by_cases hi : i.Writes address
    · rw [if_pos hi]
      exact .stored rfl hi (Program.not_writes_nil address)
    · rw [if_neg hi]
      exact (ih hfront).append_singleton hi

theorem cellAfter_run (m : Machine) (p : Program) (address : Nat) :
    CellAfter m (m.completed p) address (m.run p).machine.memory[address]? := by
  have hrun := m.run_completed p
  have hcell := cellAfter_of_ok (by rw [hrun]) address
  rwa [hrun] at hcell

/-- A cell that no completed instruction writes is left alone. -/
theorem getElem?_run_of_not_writes {p : Program} (h : ¬ (m.completed p).Writes address) :
    (m.run p).machine.memory[address]? = m.memory[address]? :=
  (m.cellAfter_run p address).eq_of_not_writes h

/-- A cell that the program does not write is left alone, however the run ends. -/
theorem getElem?_run {p : Program} (h : ¬ p.Writes address) :
    (m.run p).machine.memory[address]? = m.memory[address]? := by
  refine getElem?_run_of_not_writes ?_
  rintro ⟨i, hmem, hi⟩
  exact h ⟨i, (m.completed_isPrefix p).subset hmem, hi⟩

/-- **The last store wins, and nothing else is touched.** However a run ends, it has completed the
    first instructions of its program, as many as it has counted. After it every cell holds the
    accumulator as the last store to it among these instructions has found it, and a cell that none
    of them stores to holds what it held before. No instruction has room for an address from
    `2 ^ 28` on, so what lies there is never changed. -/
theorem cells_after_run (m : Machine) (p : Program) :
    ∃ k, k ≤ p.length ∧ (m.run p).machine.executed = m.executed + k ∧
      ((m.run p).result = .ok () ↔ k = p.length) ∧
      m.run (p.take k) = ⟨.ok (), (m.run p).machine⟩ ∧
      ∀ address, CellAfter m (p.take k) address (m.run p).machine.memory[address]? ∧
        (2 ^ 28 ≤ address → (m.run p).machine.memory[address]? = m.memory[address]?) := by
  have hinitial := m.completed_isPrefix p
  refine ⟨(m.completed p).length, hinitial.length_le, m.executed_run p, ?_, ?_, ?_⟩
  · rw [result_run_eq_ok_iff]
    exact ⟨congrArg List.length, hinitial.eq_of_length⟩
  · rw [← List.prefix_iff_eq_take.1 hinitial]
    exact m.run_completed p
  · intro address
    rw [← List.prefix_iff_eq_take.1 hinitial]
    refine ⟨m.cellAfter_run p address, fun hlarge => getElem?_run ?_⟩
    rintro ⟨i, -, hi⟩
    exact Nat.not_lt_of_le hlarge hi.lt

end Machine

end Accumulator
