import Accumulator.Machine.Display
import Accumulator.Proofs.Faults
set_option autoImplicit false

/-! # The history of a machine

A machine is used by commands in any order, and each of them finds the machine as the one before has
left it, well done or failed. What of this shows on the machine depends on the instructions that
were completed (`completedDuring`), whichever commands they came with: their number is the count of
the machine, and the last of them that uses the memory has the address that was used last.

`Accounts` says so of a machine. It holds of a machine that is set up, a completed instruction
extends it (`Accounts.step`), and nothing else that a command does touches it
(`accounts_after`). -/

namespace Accumulator

/-- What may be asked of a machine. -/
inductive Command where
  /-- Put cells into the memory from an address on. -/
  | seed (start : Nat) (cells : List Cell)
  /-- Carry one instruction out. -/
  | step (i : Instruction)
  /-- Run a program. -/
  | run (p : Program)
  /-- Run the program in a stream and give the cells of a window. -/
  | execute (bytes : Bytes) (w : Window)
  /-- Give the program in a stream. -/
  | load (bytes : Bytes)
  /-- Give the cells of a window. -/
  | cells (w : Window)
  /-- Show the machine. -/
  | display

/-- The commands that change nothing on a machine: those that only look at it, a step that fails,
    and a stream that is refused. -/
inductive Command.Harmless (m : Machine) : Command → Prop
  | load (bytes : Bytes) : Harmless m (.load bytes)
  | cells (w : Window) : Harmless m (.cells w)
  | display : Harmless m .display
  | step {i : Instruction} {e : Error} : (m.carryOut i).result = .error e → Harmless m (.step i)
  | execute {bytes : Bytes} {e : Error} (w : Window) :
      m.load bytes = .error e → Harmless m (.execute bytes w)

/-- What a machine gives for a command. -/
inductive Answer where
  | nothing
  | program (p : Program)
  | cells (found : List Cell)
  | text (shown : String)

namespace Machine

/-! ## Commands and what they complete -/

/-- Performs a command. -/
def perform (m : Machine) : Command → Outcome Answer
  | .seed start cells => ⟨.ok .nothing, m.seed start cells⟩
  | .step i => (m.carryOut i).map fun _ => .nothing
  | .run p => (m.run p).map fun _ => .nothing
  | .execute bytes w => (m.execute bytes w).map .cells
  | .load bytes => ⟨(m.load bytes).map .program, m⟩
  | .cells w => ⟨.ok (.cells (m.cells w)), m⟩
  | .display => ⟨.ok (.text m.display), m⟩

/-- The machine after commands in a row. -/
def after (m : Machine) : List Command → Machine
  | [] => m
  | c :: later => (m.perform c).machine.after later

/-- The instructions of a program that a machine completes: all of them, or those before the first
    one that fails. -/
def completed (m : Machine) : Program → Program
  | [] => []
  | i :: rest =>
    match m.step i with
    | .ok next => i :: next.completed rest
    | .error _ => []

/-- The instructions that are completed by a command. -/
def completedBy (m : Machine) : Command → Program
  | .step i => m.completed [i]
  | .run p => m.completed p
  | .execute bytes _ =>
    match m.load bytes with
    | .ok p => m.completed p
    | .error _ => []
  | .seed .. | .load _ | .cells _ | .display => []

/-- The instructions that are completed during commands in a row. -/
def completedDuring (m : Machine) : List Command → Program
  | [] => []
  | c :: later => m.completedBy c ++ (m.perform c).machine.completedDuring later

/-! ## The accounts of a machine -/

/-- How a machine that was set up with a configuration stands after the given instructions. -/
structure Accounts (config : Config) (done : Program) (m : Machine) : Prop where
  config_eq : m.config = config
  /-- The memory has the size that was asked for. -/
  size_eq : m.memory.size = config.memorySize
  /-- Every completed instruction is counted, and nothing else. -/
  count_eq : m.executed = done.length
  /-- The address used last is that of the last completed instruction that uses the memory. -/
  access_eq : m.lastAccess = (done.filter (·.UsesMemory)).getLast?.map fun i => i.operand.toNat
  /-- The address used last is an address of the memory. -/
  access_lt : ∀ address, m.lastAccess = some address → address < m.memory.size

variable {config : Config} {done : Program} {m : Machine}

theorem accounts_fresh (config : Config) : Accounts config [] (fresh config) where
  config_eq := rfl
  size_eq := Array.size_replicate
  count_eq := rfl
  access_eq := rfl
  access_lt := by simp [fresh]

theorem seed_keeps (m : Machine) (start : Nat) (cells : List Cell) :
    (m.seed start cells).memory.size = m.memory.size ∧
      (m.seed start cells).config = m.config ∧ (m.seed start cells).executed = m.executed ∧
      (m.seed start cells).lastAccess = m.lastAccess := by
  induction cells generalizing m start with
  | nil => exact ⟨rfl, rfl, rfl, rfl⟩
  | cons cell cells ih =>
    obtain ⟨hsize, hconfig, hcount, haccess⟩ :=
      ih { m with memory := m.memory.setIfInBounds start cell } (start + 1)
    exact ⟨hsize.trans Array.size_setIfInBounds, hconfig, hcount, haccess⟩

theorem Accounts.seed (h : Accounts config done m) (start : Nat) (cells : List Cell) :
    Accounts config done (m.seed start cells) := by
  obtain ⟨hsize, hconfig, hcount, haccess⟩ := m.seed_keeps start cells
  refine ⟨hconfig.trans h.config_eq, hsize.trans h.size_eq, hcount.trans h.count_eq,
    haccess.trans h.access_eq, ?_⟩
  rw [hsize, haccess]
  exact h.access_lt

/-- A completed instruction is entered into the accounts. -/
theorem Accounts.step {next : Machine} {i : Instruction} (h : Accounts config done m)
    (hstep : m.step i = .ok next) : Accounts config (done ++ [i]) next := by
  obtain ⟨hsize, hconfig, hcount⟩ := step_keeps hstep
  have haccess := lastAccess_of_step hstep
  refine ⟨hconfig.trans h.config_eq, hsize.trans h.size_eq, ?_, ?_, ?_⟩
  · rw [hcount, h.count_eq, List.length_append, List.length_singleton]
  · by_cases huses : i.UsesMemory
    · simp [haccess, huses, Instruction.address]
    · simp [haccess, huses, h.access_eq]
  · intro address haddress
    rw [hsize]
    by_cases huses : i.UsesMemory
    · rw [haccess, if_pos huses] at haddress
      obtain rfl := Option.some.inj haddress
      exact (executable_of_step hstep).address_lt huses
    · rw [haccess, if_neg huses] at haddress
      exact h.access_lt address haddress

/-- A run enters the instructions that it completes, however it ends. -/
theorem Accounts.run (h : Accounts config done m) (p : Program) :
    Accounts config (done ++ m.completed p) (m.run p).machine := by
  induction p generalizing m done with
  | nil => simpa [completed, Machine.run] using h
  | cons i rest ih =>
    rw [completed, Machine.run]
    cases hstep : m.step i with
    | error e => simpa using h
    | ok next =>
      have hnext := ih (h.step hstep)
      rwa [List.append_assoc, List.singleton_append] at hnext

/-- A command enters the instructions that it completes. -/
theorem Accounts.perform (h : Accounts config done m) (c : Command) :
    Accounts config (done ++ m.completedBy c) (m.perform c).machine := by
  cases c with
  | seed start cells => simpa [completedBy, Machine.perform] using h.seed start cells
  | step i =>
    have hrun := h.run [i]
    rwa [run_singleton] at hrun
  | run p => exact h.run p
  | execute bytes w =>
    show Accounts config (done ++ m.completedBy (.execute bytes w)) (m.execute bytes w).machine
    rw [completedBy, Machine.execute]
    cases m.load bytes with
    | error e => simpa using h
    | ok p => exact h.run p
  | load bytes => simpa [completedBy, Machine.perform] using h
  | cells w => simpa [completedBy, Machine.perform] using h
  | display => simpa [completedBy, Machine.perform] using h

theorem Accounts.after (h : Accounts config done m) (commands : List Command) :
    Accounts config (done ++ m.completedDuring commands) (m.after commands) := by
  induction commands generalizing m done with
  | nil => simpa [completedDuring, Machine.after] using h
  | cons c later ih =>
    have hlater := ih (h.perform c)
    rwa [List.append_assoc] at hlater

theorem perform_of_harmless {c : Command} (h : c.Harmless m) : (m.perform c).machine = m := by
  cases h with
  | load bytes => rfl
  | cells w => rfl
  | display => rfl
  | @step i e hfails =>
    show (m.carryOut i).machine = m
    rw [carryOut_eq] at hfails ⊢
    cases hnext : m.step i with
    | ok next => simp [hnext] at hfails
    | error e => rfl
  | @execute bytes e w hrefused =>
    show (m.execute bytes w).machine = m
    rw [Machine.execute, hrefused]

/-- **A machine keeps its accounts.** Whatever commands a machine gets after it was set up, in
    whatever order and with whatever success, its memory keeps the size that was asked for, its
    count is the number of the instructions that were completed, and the address used last is that
    of the last completed instruction that uses the memory and lies inside the memory. Looking at
    the machine, a step that fails and a stream that is refused change nothing at all. -/
theorem accounts_after (config : Config) (commands : List Command) :
    Accounts config ((fresh config).completedDuring commands) ((fresh config).after commands) ∧
    ∀ c : Command, c.Harmless ((fresh config).after commands) →
      (((fresh config).after commands).perform c).machine = (fresh config).after commands := by
  refine ⟨?_, fun c => perform_of_harmless⟩
  have h := (accounts_fresh config).after commands
  rwa [List.nil_append] at h

end Machine

end Accumulator
