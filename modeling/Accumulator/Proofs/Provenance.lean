import Accumulator.Proofs.Cells
import Mathlib.Algebra.Group.Int.Defs
set_option autoImplicit false

/-! # Where values come from

The machine copies values and compares them, and it never computes one. So a value that it holds
after a run, in its accumulator or in a cell, has one of few origins (`ComesFrom`): it was there
before, it is the constant of a completed load, or it is the outcome of a completed comparison.

One step brings in no more than its own operation does, and every other value it only moves
(`comesFrom_of_step`). An origin before the step is therefore traced one instruction further back
(`ComesFrom.cons`), and a run is traced to its start by induction, however it ends.

Constants have no more than twenty-eight bits and neither have outcomes of comparisons. So a stream
that is executed on a machine of zeros leaves no other value behind, whatever bytes it has. -/

namespace Accumulator

namespace Machine

/-! ## Values and their origins -/

/-- The values that a machine holds. -/
inductive Holds (m : Machine) : Cell → Prop
  | accumulator : Holds m m.accumulator
  | cell {address : Nat} {value : Cell} : m.memory[address]? = some value → Holds m value

/-- Where a value can come from when a machine has completed the given instructions. -/
inductive ComesFrom (m : Machine) (done : Program) : Cell → Prop
  /-- The machine has held it before. -/
  | held {value : Cell} : m.Holds value → ComesFrom m done value
  /-- It is the outcome of a comparison. -/
  | compared {i : Instruction} {value : Cell} : i ∈ done → i.operation? = some .equal →
      value = 0 ∨ value = 1 → ComesFrom m done value
  /-- It is the constant of a load. -/
  | constant {i : Instruction} : i ∈ done → i.operation? = some .loadConstant →
      ComesFrom m done (Cell.ofOperand i.operand)

variable {m next : Machine} {i : Instruction} {later : Program} {value : Cell}

/-! ## Tracing a value back -/

/-- What a machine holds after a step was held before, or the instruction brings it in. -/
theorem comesFrom_of_step (hstep : m.step i = .ok next) (h : next.Holds value)
    (later : Program) : ComesFrom m (i :: later) value := by
  have hmem : i ∈ i :: later := List.mem_cons_self
  rcases h with _ | hcell
  · -- each operation but the store has its own way to set the accumulator
    cases completes_of_step hstep with
    | loadConstant hop => exact .constant hmem hop
    | loadMemory _ hfound => exact .held (.cell hfound)
    | equal hop _ =>
      refine .compared hmem hop ?_
      split
      · exact .inr rfl
      · exact .inl rfl
    | store => exact .held .accumulator
  · rw [getElem?_of_step hstep] at hcell
    split at hcell
    · obtain rfl := Option.some.inj hcell
      exact .held .accumulator
    · exact .held (.cell hcell)

/-- An origin after a step is traced back to an origin before it. -/
theorem ComesFrom.cons (h : ComesFrom next later value) (hstep : m.step i = .ok next) :
    ComesFrom m (i :: later) value := by
  rcases h with hheld | ⟨hmem, hop, hvalue⟩ | ⟨hmem, hop⟩
  · exact comesFrom_of_step hstep hheld later
  · exact .compared (List.mem_cons_of_mem i hmem) hop hvalue
  · exact .constant (List.mem_cons_of_mem i hmem) hop

/-- Every value after a run comes from the instructions that were completed, or from before. -/
theorem comesFrom_of_run {p : Program} (h : (m.run p).machine.Holds value) :
    ComesFrom m (m.completed p) value := by
  induction p generalizing m with
  | nil => exact .held h
  | cons i rest ih =>
    rw [run] at h
    cases hstep : m.step i with
    | error e =>
      rw [hstep] at h
      exact .held h
    | ok next =>
      rw [hstep] at h
      rw [completed_of_step hstep]
      exact (ih h).cons hstep

/-! ## How large values become -/

/-- If a machine holds nothing but numbers of twenty-eight bits, no other number comes from it. -/
theorem ComesFrom.lt {done : Program} (h : ComesFrom m done value)
    (hm : ∀ held, m.Holds held → 0 ≤ held.toInt ∧ held.toInt < 2 ^ 28) :
    0 ≤ value.toInt ∧ value.toInt < 2 ^ 28 := by
  rcases h with hheld | ⟨-, -, rfl | rfl⟩ | @⟨i, -, -⟩
  · exact hm value hheld
  · decide
  · decide
  · rw [Cell.toInt_ofOperand]
    have hlt := i.operand.isLt
    omega

theorem eq_zero_of_holds_fresh {config : Config} (h : (fresh config).Holds value) :
    value = 0 := by
  rcases h with _ | @⟨address, _, hcell⟩
  · rfl
  · rw [fresh, Array.getElem?_replicate] at hcell
    split at hcell
    · exact (Option.some.inj hcell).symm
    · simp at hcell

/-- An execution leaves the machine as a run leaves it, or as it was. -/
theorem exists_machine_execute (m : Machine) (bytes : Bytes) (w : Window) :
    ∃ p, (m.execute bytes w).machine = (m.run p).machine := by
  rw [execute]
  cases m.load bytes with
  | error e => exact ⟨[], rfl⟩
  | ok p => exact ⟨p, rfl⟩

/-- **Values are copied, and never made up.** However a run ends, each value in the accumulator and
    in the memory after it was in the accumulator or in a cell before, or is the constant of a
    completed load, or is zero or one and the outcome of a completed comparison. So, whatever stream
    is executed on a machine that was set up, of any size, and however this ends, the machine then
    holds no other values than numbers of twenty-eight bits. -/
theorem values_after_run (m : Machine) (p : Program) :
    (∀ value, (m.run p).machine.Holds value → ComesFrom m (m.completed p) value) ∧
    ∀ (config : Config) (bytes : Bytes) (w : Window) (value : Cell),
      ((fresh config).execute bytes w).machine.Holds value →
        0 ≤ value.toInt ∧ value.toInt < 2 ^ 28 := by
  refine ⟨fun value h => comesFrom_of_run h, ?_⟩
  intro config bytes w value h
  obtain ⟨q, hq⟩ := (fresh config).exists_machine_execute bytes w
  rw [hq] at h
  refine (comesFrom_of_run h).lt ?_
  intro held hheld
  rw [eq_zero_of_holds_fresh hheld]
  decide

end Machine

end Accumulator
