import Accumulator.Machine.Effects
set_option autoImplicit false

/-! # Where a program stops

Whether an instruction can be carried out depends on the instruction and on the size of the memory:
its opcode must be the code of an operation, and an operation that uses the memory needs an address
below that size (`Executable`). Cells, the accumulator and what ran before have no part in it, since
a step keeps the size (`step_keeps`).

So the end of a run is known before it starts. A program runs to its end if all its instructions are
executable, and else up to the first one that is not, whose number among all completed instructions
is the position of the error (`run_stops_at_first_fault`). -/

namespace Accumulator

namespace Instruction

/-! ## Executable instructions -/

/-- Whether the opcode asks for a memory cell: it is the code of `equal`, `store` or
    `loadMemory`. -/
def UsesMemory (i : Instruction) : Prop := i.opcode = 7#4 ∨ i.opcode = 11#4 ∨ i.opcode = 12#4

/-- Whether a machine with the given number of cells can carry the instruction out. -/
def Executable (size : Nat) (i : Instruction) : Prop :=
  i.opcode = 2#4 ∨ i.UsesMemory ∧ i.operand.toNat < size

instance (i : Instruction) : Decidable i.UsesMemory :=
  inferInstanceAs (Decidable (_ ∨ _ ∨ _))

instance (size : Nat) (i : Instruction) : Decidable (i.Executable size) :=
  inferInstanceAs (Decidable (_ ∨ _ ∧ _))

/-- The error of an instruction that cannot be carried out, on a machine with the given number of
    cells that has completed the given number of instructions. -/
def fault (size position : Nat) (i : Instruction) : Error :=
  if i.opcode = 2#4 ∨ i.UsesMemory then .outOfBounds i.operand.toNat size position
  else .unknownOpcode i.opcode.toNat position

/-- The operations that use the memory are all but one. -/
theorem usesMemory_iff {i : Instruction} {op : Operation} (h : i.operation? = some op) :
    i.UsesMemory ↔ op ≠ .loadConstant := by
  rw [UsesMemory, operation?_eq_some_iff.1 h]
  cases op <;> decide

theorem opcode_eq_or_usesMemory_iff {i : Instruction} :
    i.opcode = 2#4 ∨ i.UsesMemory ↔ i.operation? ≠ none := by
  constructor
  · intro h
    have hsome : ∃ op : Operation, i.opcode = BitVec.ofNat 4 op.code := by
      rcases h with h | h | h | h
      · exact ⟨.loadConstant, h⟩
      · exact ⟨.equal, h⟩
      · exact ⟨.store, h⟩
      · exact ⟨.loadMemory, h⟩
    obtain ⟨op, hop⟩ := hsome
    rw [operation?_eq_some_iff.2 hop]
    exact Option.some_ne_none op
  · intro h
    obtain ⟨op, hop⟩ := Option.ne_none_iff_exists'.1 h
    cases hload : decide (op = .loadConstant) with
    | true =>
      rw [of_decide_eq_true hload] at hop
      exact .inl (operation?_eq_some_iff.1 hop)
    | false => exact .inr ((usesMemory_iff hop).2 (of_decide_eq_false hload))

theorem executable_iff {size : Nat} {i : Instruction} {op : Operation}
    (h : i.operation? = some op) :
    i.Executable size ↔ op = .loadConstant ∨ i.address < size := by
  rw [Executable, usesMemory_iff h]
  have hload : i.opcode = 2#4 ↔ op = .loadConstant := by
    rw [operation?_eq_some_iff.1 h]
    cases op <;> decide
  rw [hload]
  by_cases hop : op = .loadConstant
  · simp [hop]
  · simp [hop, address]

theorem fault_of_operation? {i : Instruction} {op : Operation} (h : i.operation? = some op)
    (size position : Nat) : i.fault size position = .outOfBounds i.address size position := by
  have hknown : i.opcode = 2#4 ∨ i.UsesMemory := by
    rw [opcode_eq_or_usesMemory_iff, h]
    simp
  exact if_pos hknown

theorem fault_of_no_operation {i : Instruction} (h : i.operation? = none) (size position : Nat) :
    i.fault size position = .unknownOpcode i.opcode.toNat position := by
  have hunknown : ¬ (i.opcode = 2#4 ∨ i.UsesMemory) := by
    rw [opcode_eq_or_usesMemory_iff, h]
    simp
  exact if_neg hunknown

theorem Executable.address_lt {size : Nat} {i : Instruction} (h : i.Executable size)
    (huses : i.UsesMemory) : i.address < size := by
  rcases h with hload | ⟨-, hlt⟩
  · rw [UsesMemory, hload] at huses
    exact absurd huses (by decide)
  · exact hlt

end Instruction

/-! ## One instruction -/

namespace Machine

theorem step_of_executable {m : Machine} {i : Instruction} (h : i.Executable m.memory.size) :
    ∃ next, m.step i = .ok next := by
  have hknown : i.operation? ≠ none :=
    Instruction.opcode_eq_or_usesMemory_iff.1 (h.imp_right And.left)
  obtain ⟨op, hop⟩ := Option.ne_none_iff_exists'.1 hknown
  rw [Instruction.executable_iff hop] at h
  rw [step, hop]
  cases op with
  | loadConstant => exact ⟨_, rfl⟩
  | loadMemory =>
    have hlt : i.address < m.memory.size := by simpa using h
    simp only [Array.getElem?_eq_getElem hlt]
    exact ⟨_, rfl⟩
  | equal =>
    have hlt : i.address < m.memory.size := by simpa using h
    simp only [Array.getElem?_eq_getElem hlt]
    exact ⟨_, rfl⟩
  | store =>
    have hlt : i.address < m.memory.size := by simpa using h
    simp only [if_pos hlt]
    exact ⟨_, rfl⟩

theorem step_of_not_executable {m : Machine} {i : Instruction}
    (h : ¬ i.Executable m.memory.size) :
    m.step i = .error (i.fault m.memory.size m.executed) := by
  rw [step]
  cases hop : i.operation? with
  | none => rw [Instruction.fault_of_no_operation hop]
  | some op =>
    rw [Instruction.executable_iff hop, not_or] at h
    obtain ⟨hload, hout⟩ := h
    have hnone : m.memory[i.address]? = none := Array.getElem?_eq_none (Nat.le_of_not_lt hout)
    rw [Instruction.fault_of_operation? hop]
    cases op with
    | loadConstant => exact absurd rfl hload
    | loadMemory => simp only [hnone, outOfBounds]
    | equal => simp only [hnone, outOfBounds]
    | store => simp only [if_neg hout, outOfBounds]

theorem executable_of_step {m next : Machine} {i : Instruction} (h : m.step i = .ok next) :
    i.Executable m.memory.size := by
  refine Decidable.byContradiction fun hnot => ?_
  rw [step_of_not_executable hnot] at h
  simp at h

/-- A completed instruction that uses the memory leaves its address behind, and no other one
    does. -/
theorem lastAccess_of_step {m next : Machine} {i : Instruction} (h : m.step i = .ok next) :
    next.lastAccess = if i.UsesMemory then some i.address else m.lastAccess := by
  cases completes_of_step h with
  | loadConstant hop => rw [if_neg (by simp [Instruction.usesMemory_iff hop])]
  | loadMemory hop => rw [if_pos ((Instruction.usesMemory_iff hop).2 (by decide))]
  | equal hop => rw [if_pos ((Instruction.usesMemory_iff hop).2 (by decide))]
  | store hop => rw [if_pos ((Instruction.usesMemory_iff hop).2 (by decide))]

/-- An instruction that cannot be carried out changes nothing on its way to the error. -/
theorem carryOut_of_not_executable {m : Machine} {i : Instruction}
    (h : ¬ i.Executable m.memory.size) :
    m.carryOut i = ⟨.error (i.fault m.memory.size m.executed), m⟩ := by
  rw [carryOut_eq, step_of_not_executable h]

/-! ## A program -/

theorem run_of_step {m next : Machine} {i : Instruction} (h : m.step i = .ok next)
    (rest : Program) : m.run (i :: rest) = next.run rest := by
  rw [run, h]

/-- Executable instructions are completed, all of them. -/
theorem run_of_executable {m : Machine} {p : Program}
    (h : ∀ i ∈ p, i.Executable m.memory.size) :
    (m.run p).result = .ok () ∧ (m.run p).machine.memory.size = m.memory.size ∧
      (m.run p).machine.executed = m.executed + p.length := by
  induction p generalizing m with
  | nil => exact ⟨rfl, rfl, rfl⟩
  | cons i rest ih =>
    rw [List.forall_mem_cons] at h
    obtain ⟨hi, hrest⟩ := h
    obtain ⟨next, hstep⟩ := step_of_executable hi
    obtain ⟨hsize, -, hcount⟩ := step_keeps hstep
    -- the rest finds a memory of the same size, so it is executable there too
    rw [← hsize] at hrest
    obtain ⟨hresult, hmemory, hexecuted⟩ := ih hrest
    rw [run, hstep]
    refine ⟨hresult, hmemory.trans hsize, ?_⟩
    rw [hexecuted, hcount, List.length_cons]
    omega

/-- The first instruction that cannot be carried out ends the run where the ones before it have
    led. -/
theorem run_of_not_executable {m : Machine} {front : Program} {i : Instruction} (back : Program)
    (hfront : ∀ j ∈ front, j.Executable m.memory.size) (hi : ¬ i.Executable m.memory.size) :
    m.run (front ++ i :: back) =
      ⟨.error (i.fault m.memory.size (m.executed + front.length)), (m.run front).machine⟩ := by
  obtain ⟨hresult, hsize, hexecuted⟩ := run_of_executable hfront
  rw [← hsize] at hi
  rw [run_append, hresult]
  simp only [run, step_of_not_executable hi, hsize, hexecuted]

/-- A program that is not executable throughout has a first instruction that is not. -/
theorem exists_first_not_executable {size : Nat} {p : Program}
    (h : ¬ ∀ i ∈ p, i.Executable size) :
    ∃ front i back, p = front ++ i :: back ∧ (∀ j ∈ front, j.Executable size) ∧
      ¬ i.Executable size := by
  have hfind : (p.find? fun i => !decide (i.Executable size)).isSome := by
    simpa using h
  obtain ⟨i, hi⟩ := Option.isSome_iff_exists.1 hfind
  obtain ⟨hnot, front, back, rfl, hfront⟩ := List.find?_eq_some_iff_append.1 hi
  exact ⟨front, i, back, rfl, by simpa using hfront, by simpa using hnot⟩

/-- A run that fails has completed what stands before the instruction that is at fault. -/
theorem exists_split_of_error {m : Machine} {p : Program} {e : Error}
    (h : (m.run p).result = .error e) :
    ∃ front i back, p = front ++ i :: back ∧ m.run front = ⟨.ok (), (m.run p).machine⟩ ∧
      ¬ i.Executable m.memory.size ∧ e = i.fault m.memory.size (m.executed + front.length) := by
  by_cases hall : ∀ i ∈ p, i.Executable m.memory.size
  · rw [(run_of_executable hall).1] at h
    simp at h
  · obtain ⟨front, i, back, rfl, hfront, hi⟩ := exists_first_not_executable hall
    rw [run_of_not_executable back hfront hi] at h ⊢
    refine ⟨front, i, back, rfl, ?_, hi, (Except.error.inj h).symm⟩
    rw [← (run_of_executable hfront).1]

/-- A run fails with the fault of one of its instructions. -/
theorem exists_fault_of_run {m : Machine} {p : Program} {e : Error}
    (h : (m.run p).result = .error e) :
    ∃ (i : Instruction) (size position : Nat), e = i.fault size position := by
  obtain ⟨_, i, _, -, -, -, hfault⟩ := exists_split_of_error h
  exact ⟨i, _, _, hfault⟩

/-- **Where a program stops is known before it runs.** It runs to its end if and only if all its
    instructions are executable in a memory of the machine's size. If not, it stops at the first one
    that is not: that instruction is the cause and its place the position of the error, and the
    machine is left as the instructions before it leave it, with nothing changed by the one that
    failed. So cells and accumulators have no influence on the result. -/
theorem run_stops_at_first_fault (m : Machine) (p : Program) :
    ((m.run p).result = .ok () ↔ ∀ i ∈ p, i.Executable m.memory.size) ∧
    ((∃ i ∈ p, ¬ i.Executable m.memory.size) →
      ∃ front i back, p = front ++ i :: back ∧
        (∀ j ∈ front, j.Executable m.memory.size) ∧ ¬ i.Executable m.memory.size ∧
        (m.run p).result = .error (i.fault m.memory.size (m.executed + front.length)) ∧
        (m.run front).result = .ok () ∧
        (m.run p).machine = (m.run front).machine ∧
        (m.run front).machine.carryOut i = ⟨(m.run p).result, (m.run front).machine⟩) ∧
    ∀ n : Machine, n.memory.size = m.memory.size → n.executed = m.executed →
      (n.run p).result = (m.run p).result := by
  by_cases hall : ∀ i ∈ p, i.Executable m.memory.size
  · obtain ⟨hresult, -, -⟩ := run_of_executable hall
    refine ⟨⟨fun _ => hall, fun _ => hresult⟩, ?_, ?_⟩
    · rintro ⟨i, hmem, hi⟩
      exact absurd (hall i hmem) hi
    · intro n hsize _
      rw [← hsize] at hall
      rw [hresult, (run_of_executable hall).1]
  · obtain ⟨front, i, back, rfl, hfront, hi⟩ := exists_first_not_executable hall
    have hrun := run_of_not_executable back hfront hi
    refine ⟨⟨?_, fun h => absurd h hall⟩, fun _ => ?_, ?_⟩
    · intro hresult
      rw [hrun] at hresult
      simp at hresult
    · obtain ⟨hresult, hsize, hexecuted⟩ := run_of_executable hfront
      refine ⟨front, i, back, rfl, hfront, hi, by rw [hrun], hresult, by rw [hrun], ?_⟩
      rw [← hsize] at hi
      rw [carryOut_of_not_executable hi, hrun, hsize, hexecuted]
    · intro n hsize hexecuted
      rw [← hsize] at hfront hi
      rw [run_of_not_executable back hfront hi, hrun, hsize, hexecuted]

end Machine

end Accumulator
