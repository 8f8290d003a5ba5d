import Accumulator.Proofs.History
import Mathlib.Data.List.TakeWhile
set_option autoImplicit false

/-! # What a run completes

A run completes the instructions of its program up to the first one that fails, and it leaves the
machine as these instructions alone would leave it (`run_completed`). So every question about the
machine after a run, finished or aborted, is a question about a run that is finished.

Which instructions these are is known beforehand, from the size of the memory
(`completed_eq_takeWhile`). They decide the count and the address used last after the run
(`executed_run`, `lastAccess_run`). -/

namespace Accumulator

namespace Machine

/-! ## The completed part of a program -/

variable {m n next : Machine} {i : Instruction} {p : Program}

theorem completed_of_step (h : m.step i = .ok next) (rest : Program) :
    m.completed (i :: rest) = i :: next.completed rest := by
  rw [completed, h]

theorem completed_of_error {e : Error} (h : m.step i = .error e) (rest : Program) :
    m.completed (i :: rest) = [] := by
  rw [completed, h]

/-- The instructions before the first one that is not executable are completed. -/
theorem completed_eq_takeWhile (m : Machine) (p : Program) :
    m.completed p = p.takeWhile fun i => i.Executable m.memory.size := by
  induction p generalizing m with
  | nil => rfl
  | cons i rest ih =>
    by_cases hi : i.Executable m.memory.size
    · obtain ⟨next, hstep⟩ := step_of_executable hi
      rw [completed_of_step hstep, ih next, (step_keeps hstep).1,
        List.takeWhile_cons_of_pos (by simpa using hi)]
    · rw [completed_of_error (step_of_not_executable hi),
        List.takeWhile_cons_of_neg (by simpa using hi)]

theorem completed_isPrefix (m : Machine) (p : Program) : m.completed p <+: p := by
  rw [completed_eq_takeWhile]
  exact List.takeWhile_prefix _

theorem executable_of_mem_completed (h : i ∈ m.completed p) : i.Executable m.memory.size := by
  rw [completed_eq_takeWhile] at h
  simpa using List.mem_takeWhile_imp h

/-- Machines with memories of one size complete the same instructions. -/
theorem completed_congr (h : n.memory.size = m.memory.size) (p : Program) :
    n.completed p = m.completed p := by
  rw [completed_eq_takeWhile, completed_eq_takeWhile, h]

theorem completed_eq_self (h : ∀ i ∈ p, i.Executable m.memory.size) : m.completed p = p := by
  rw [completed_eq_takeWhile, List.takeWhile_eq_self_iff]
  exact fun i hi => decide_eq_true (h i hi)

/-! ## Runs that reach their end -/

/-- A run that reaches its end finds all its instructions executable. -/
theorem executable_of_run (h : (m.run p).result = .ok ()) :
    ∀ i ∈ p, i.Executable m.memory.size := by
  refine Decidable.byContradiction fun hnot => ?_
  obtain ⟨front, i, back, rfl, hfront, hi⟩ := exists_first_not_executable hnot
  rw [run_of_not_executable back hfront hi] at h
  simp at h

theorem run_append_of_ok (h : (m.run p).result = .ok ()) (q : Program) :
    m.run (p ++ q) = (m.run p).machine.run q := by
  rw [run_append, h]

/-- A program that has no other instructions than one that reaches its end does so as well. -/
theorem result_run_of_subset {q : Program} (h : (m.run p).result = .ok ()) (hsub : q ⊆ p) :
    (m.run q).result = .ok () :=
  (run_of_executable fun i hi => executable_of_run h i (hsub hi)).1

theorem exists_step_of_run {rest : Program} (h : (m.run (i :: rest)).result = .ok ()) :
    ∃ next, m.step i = .ok next ∧ (next.run rest).result = .ok () := by
  obtain ⟨next, hstep⟩ := step_of_executable (executable_of_run h i List.mem_cons_self)
  rw [run_of_step hstep] at h
  exact ⟨next, hstep, h⟩

/-- Two machines that have memories of one size and completed equally many instructions before give
    the same result. -/
theorem result_run_congr (hsize : n.memory.size = m.memory.size)
    (hcount : n.executed = m.executed) (p : Program) : (n.run p).result = (m.run p).result := by
  by_cases hall : ∀ i ∈ p, i.Executable m.memory.size
  · rw [(run_of_executable hall).1, (run_of_executable (hsize ▸ hall)).1]
  · obtain ⟨front, i, back, rfl, hfront, hi⟩ := exists_first_not_executable hall
    rw [run_of_not_executable back hfront hi,
      run_of_not_executable back (hsize ▸ hfront) (hsize ▸ hi), hsize, hcount]

/-! ## The machine after a run -/

/-- A run leaves behind what the instructions that it completes leave behind. -/
theorem run_completed (m : Machine) (p : Program) :
    m.run (m.completed p) = ⟨.ok (), (m.run p).machine⟩ := by
  induction p generalizing m with
  | nil => rfl
  | cons i rest ih =>
    cases hstep : m.step i with
    | error e => rw [completed_of_error hstep, run, run, hstep]
    | ok next => rw [completed_of_step hstep, run_of_step hstep, run_of_step hstep, ih next]

@[simp]
theorem size_run (m : Machine) (p : Program) :
    (m.run p).machine.memory.size = m.memory.size := by
  obtain ⟨-, hsize, -⟩ := run_of_executable fun i (hi : i ∈ m.completed p) =>
    executable_of_mem_completed hi
  rwa [run_completed] at hsize

/-- A run counts the instructions that it completes. -/
theorem executed_run (m : Machine) (p : Program) :
    (m.run p).machine.executed = m.executed + (m.completed p).length := by
  obtain ⟨-, -, hcount⟩ := run_of_executable fun i (hi : i ∈ m.completed p) =>
    executable_of_mem_completed hi
  rwa [run_completed] at hcount

theorem result_run_eq_ok_iff (m : Machine) (p : Program) :
    (m.run p).result = .ok () ↔ m.completed p = p := by
  constructor
  · intro h
    exact completed_eq_self (executable_of_run h)
  · intro h
    have hrun := m.run_completed p
    rw [h] at hrun
    rw [hrun]

/-- The address used last is that of the last completed instruction that uses the memory, or, if
    there is none, the one that was used last before. -/
theorem lastAccess_run (m : Machine) (p : Program) :
    (m.run p).machine.lastAccess =
      (((m.completed p).filter (·.UsesMemory)).getLast?.map Instruction.address).or
        m.lastAccess := by
  induction p generalizing m with
  | nil => rfl
  | cons i rest ih =>
    cases hstep : m.step i with
    | error e =>
      rw [completed_of_error hstep, run, hstep]
      rfl
    | ok next =>
      rw [completed_of_step hstep, run_of_step hstep, ih next, lastAccess_of_step hstep]
      by_cases huses : i.UsesMemory
      · simp [huses, List.getLast?_cons]
      · simp [huses]

end Machine

end Accumulator
