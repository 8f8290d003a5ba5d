import Accumulator.Machine.Basic
import Accumulator.Proofs.Bytecode
import Accumulator.Proofs.Grammar
import Accumulator.Proofs.Windows
set_option autoImplicit false

/-! # Bytecode does what its source says

A clause can be carried out as it is written, without an encoding: on a store of integers, with the
written integer modulo `2 ^ 28` for its constant or its address. A clause that uses an address
outside the memory has no effect, and that is the only way for clauses to fail.

`Implements` compares a stream with such clauses. It covers every machine, whatever its cells, its
count of completed instructions and its truncation policy are, and every window. The main statement
is that the bytecode of an assembled source implements the clauses of that source
(`implements_of_assemble`). It rests on one simulation: a machine that carries out the instruction
of a clause changes its store as the clause does (`step_of_effect`), or fails where the clause has
no effect (`step_of_no_effect`). -/

namespace Accumulator

/-! ## The effect of clauses -/

/-- What clauses work on. -/
structure Store where
  memory : List Int
  accumulator : Int

namespace Store

/-- The integers at the addresses from the start of a window up to its end, as far as there are
    any. -/
def select (s : Store) (w : Window) : List Int :=
  (s.memory.take w.stop.toNat).drop w.start.toNat

end Store

namespace Clause

/-- The constant or the address that a clause names. -/
def operand (c : Clause) : Nat := (c.value % 2 ^ 28).toNat

/-- The store after a clause, unless the clause uses an address outside the memory. -/
def effect (c : Clause) (s : Store) : Option Store :=
  match c.operation with
  | .loadConstant => some { s with accumulator := c.operand }
  | .loadMemory => s.memory[c.operand]?.map fun cell => { s with accumulator := cell }
  | .store =>
    if c.operand < s.memory.length then
      some { s with memory := s.memory.set c.operand s.accumulator }
    else none
  | .equal =>
    s.memory[c.operand]?.map fun cell =>
      { s with accumulator := if s.accumulator = cell then 1 else 0 }

/-- The store after clauses in a row, if all of them have an effect. -/
def effects : List Clause → Store → Option Store
  | [], s => some s
  | c :: rest, s => (c.effect s).bind (effects rest)

end Clause

/-- The store of a machine. -/
def Machine.store (m : Machine) : Store := ⟨m.memory.toList.map Int64.toInt, m.accumulator.toInt⟩

/-- The program that clauses assemble to. -/
def Clause.program (clauses : List Clause) : Program :=
  clauses.map fun c => c.statement.instruction

/-- The stream does on every machine what the clauses do on its store. -/
structure Implements (bytes : Bytes) (clauses : List Clause) : Prop where
  /-- If all clauses have an effect, the stream runs to its end and the window is that of the store
      after them. -/
  finishes (m : Machine) (w : Window) (s : Store) : Clause.effects clauses m.store = some s →
    (∃ cells, (m.execute bytes w).result = .ok cells ∧ cells.map Int64.toInt = s.select w) ∧
      (m.execute bytes w).machine.store = s ∧
      (m.execute bytes w).machine.executed = m.executed + clauses.length
  /-- At the first clause without an effect the stream fails, and the machine is left as the clauses
      before it leave it. -/
  stops (m : Machine) (w : Window) (s : Store) (front : List Clause) (c : Clause)
      (back : List Clause) : clauses = front ++ c :: back →
    Clause.effects front m.store = some s → c.effect s = none →
    (m.execute bytes w).result =
        .error (.outOfBounds c.operand m.memory.size (m.executed + front.length)) ∧
      (m.execute bytes w).machine.store = s ∧
      (m.execute bytes w).machine.executed = m.executed + front.length
  /-- The stream is never refused, and none of its opcodes is unknown. -/
  fails_only_outOfBounds (m : Machine) (w : Window) (e : Error) :
    (m.execute bytes w).result = .error e →
      ∃ address position, e = .outOfBounds address m.memory.size position

/-! ## One clause -/

namespace Clause

@[simp]
theorem toNat_instruction_operand (c : Clause) :
    c.statement.instruction.operand.toNat = c.operand := by
  rw [operand, ← c.encodes_instruction.2]
  rfl

@[simp]
theorem instruction_address (c : Clause) : c.statement.instruction.address = c.operand :=
  c.toNat_instruction_operand

end Clause

namespace Machine

@[simp]
theorem length_store (m : Machine) : m.store.memory.length = m.memory.size := by
  simp [store]

@[simp]
theorem getElem?_store (m : Machine) (address : Nat) :
    m.store.memory[address]? = m.memory[address]?.map Int64.toInt := by
  simp [store]

theorem getElem?_store_eq_some {m : Machine} {address : Nat} {cell : Int}
    (h : m.store.memory[address]? = some cell) :
    ∃ found, m.memory[address]? = some found ∧ found.toInt = cell := by
  simpa using h

/-- A clause with an effect is carried out. -/
theorem step_of_effect {m : Machine} {c : Clause} {s : Store} (h : c.effect m.store = some s) :
    ∃ next, m.step c.statement.instruction = .ok next ∧ next.store = s := by
  rw [Clause.effect] at h
  cases hop : c.operation with
  | loadConstant =>
    simp only [hop, Option.some.injEq] at h
    subst h
    simp [step, hop, store]
  | loadMemory =>
    simp only [hop] at h
    obtain ⟨cell, hcell, rfl⟩ := Option.map_eq_some_iff.1 h
    obtain ⟨found, hfound, rfl⟩ := getElem?_store_eq_some hcell
    simp [step, hop, hfound, store]
  | store =>
    simp only [hop, Option.ite_none_right_eq_some, Option.some.injEq, length_store] at h
    obtain ⟨hlt, rfl⟩ := h
    simp [step, hop, hlt, store, List.map_set]
  | equal =>
    simp only [hop] at h
    obtain ⟨cell, hcell, rfl⟩ := Option.map_eq_some_iff.1 h
    obtain ⟨found, hfound, rfl⟩ := getElem?_store_eq_some hcell
    -- cells are equal if and only if the integers that they hold are
    by_cases heq : m.accumulator = found
    · simp [step, hop, hfound, store, heq]
    · have hne : m.accumulator.toInt ≠ found.toInt := fun hint => heq (Int64.toInt_inj.1 hint)
      simp [step, hop, hfound, store, heq, hne]

/-- A clause without an effect fails, and its address is the reason. -/
theorem step_of_no_effect {m : Machine} {c : Clause} (h : c.effect m.store = none) :
    m.step c.statement.instruction = .error (m.outOfBounds c.operand) := by
  rw [Clause.effect] at h
  cases hop : c.operation with
  | loadConstant => simp [hop] at h
  | loadMemory =>
    have hnone : m.memory[c.operand]? = none := by simpa [hop] using h
    simp [step, hop, hnone]
  | store =>
    have hout : ¬ c.operand < m.memory.size := by simpa [hop] using h
    simp [step, hop, hout]
  | equal =>
    have hnone : m.memory[c.operand]? = none := by simpa [hop] using h
    simp [step, hop, hnone]

/-! ## Clauses in a row -/

theorem run_of_effects {clauses : List Clause} {m : Machine} {s : Store}
    (h : Clause.effects clauses m.store = some s) :
    (m.run (Clause.program clauses)).result = .ok () ∧
      (m.run (Clause.program clauses)).machine.store = s ∧
      (m.run (Clause.program clauses)).machine.executed = m.executed + clauses.length ∧
      (m.run (Clause.program clauses)).machine.memory.size = m.memory.size := by
  induction clauses generalizing m with
  | nil => exact ⟨rfl, Option.some.inj h, rfl, rfl⟩
  | cons c rest ih =>
    rw [Clause.effects] at h
    obtain ⟨middle, hmiddle, hrest⟩ := Option.bind_eq_some_iff.1 h
    obtain ⟨next, hstep, rfl⟩ := step_of_effect hmiddle
    obtain ⟨hsize, -, hexecuted⟩ := step_keeps hstep
    have hrun : m.run (Clause.program (c :: rest)) = next.run (Clause.program rest) := by
      show m.run (c.statement.instruction :: Clause.program rest) = _
      rw [run, hstep]
    obtain ⟨hresult, hstore, hcount, hmemory⟩ := ih hrest
    rw [hrun]
    refine ⟨hresult, hstore, ?_, hmemory.trans hsize⟩
    rw [hcount, hexecuted, List.length_cons]
    omega

theorem run_of_no_effect {front : List Clause} {c : Clause} (back : List Clause) {m : Machine}
    {s : Store} (hfront : Clause.effects front m.store = some s) (hc : c.effect s = none) :
    (m.run (Clause.program (front ++ c :: back))).result =
        .error (.outOfBounds c.operand m.memory.size (m.executed + front.length)) ∧
      (m.run (Clause.program (front ++ c :: back))).machine.store = s ∧
      (m.run (Clause.program (front ++ c :: back))).machine.executed =
        m.executed + front.length := by
  obtain ⟨hresult, hstore, hexecuted, hsize⟩ := run_of_effects hfront
  have hprogram : Clause.program (front ++ c :: back) =
      Clause.program front ++ c.statement.instruction :: Clause.program back := by
    simp [Clause.program]
  rw [← hstore] at hc
  -- the front is carried out, and the next instruction stops the machine where it stands
  rw [hprogram, run_append, hresult]
  simp only [run, step_of_no_effect hc, outOfBounds, hsize, hexecuted]
  exact ⟨trivial, hstore, trivial⟩

end Machine

/-- Clauses that do not all have an effect have a first one without. -/
theorem Clause.exists_of_effects_eq_none {clauses : List Clause} {s : Store}
    (h : effects clauses s = none) :
    ∃ front c back middle, clauses = front ++ c :: back ∧ effects front s = some middle ∧
      c.effect middle = none := by
  induction clauses generalizing s with
  | nil => simp [effects] at h
  | cons c rest ih =>
    cases hc : c.effect s with
    | none => exact ⟨[], c, rest, s, rfl, rfl, hc⟩
    | some next =>
      rw [effects, hc] at h
      obtain ⟨front, d, back, middle, rfl, hfront, hd⟩ := ih h
      refine ⟨c :: front, d, back, middle, rfl, ?_, hd⟩
      rw [effects, hc]
      exact hfront

/-! ## The window -/

@[simp]
theorem Machine.map_toInt_cells (m : Machine) (w : Window) :
    (m.cells w).map Int64.toInt = m.store.select w := by
  rw [cells_eq_drop_take, Store.select, store, List.map_drop, List.map_take]

/-! ## Streams -/

namespace Machine

@[simp]
theorem load_encode (m : Machine) (p : Program) : m.load (Bytecode.encode p) = .ok p :=
  Bytecode.decode_encode m.config.truncation p

@[simp]
theorem execute_encode (m : Machine) (p : Program) (w : Window) :
    m.execute (Bytecode.encode p) w = select w (m.run p) := by
  rw [execute, load_encode]

theorem result_select_of_error {w : Window} {outcome : Outcome Unit} {e : Error}
    (h : outcome.result = .error e) : (select w outcome).result = .error e := by
  rw [select, h]
  rfl

theorem result_select_of_ok {w : Window} {outcome : Outcome Unit} (h : outcome.result = .ok ()) :
    (select w outcome).result = .ok (outcome.machine.cells w) := by
  rw [select, h]
  rfl

end Machine

theorem implements_program (clauses : List Clause) :
    Implements (Bytecode.encode (Clause.program clauses)) clauses where
  finishes m w s h := by
    obtain ⟨hresult, hstore, hexecuted, -⟩ := Machine.run_of_effects h
    rw [Machine.execute_encode]
    refine ⟨⟨_, Machine.result_select_of_ok hresult, ?_⟩, hstore, hexecuted⟩
    rw [Machine.map_toInt_cells, hstore]
  stops m w s front c back hclauses hfront hc := by
    subst hclauses
    obtain ⟨hresult, hstore, hexecuted⟩ := Machine.run_of_no_effect back hfront hc
    rw [Machine.execute_encode]
    exact ⟨Machine.result_select_of_error hresult, hstore, hexecuted⟩
  fails_only_outOfBounds m w e h := by
    rw [Machine.execute_encode] at h
    cases heffects : Clause.effects clauses m.store with
    | some s =>
      rw [Machine.result_select_of_ok (Machine.run_of_effects heffects).1] at h
      simp at h
    | none =>
      obtain ⟨front, c, back, s, rfl, hfront, hc⟩ := Clause.exists_of_effects_eq_none heffects
      rw [Machine.result_select_of_error (Machine.run_of_no_effect back hfront hc).1] at h
      exact ⟨_, _, (Except.error.inj h).symm⟩

/-- **Compilation is correct.** A source that is assembled holds exactly one list of clauses, and
    its bytecode implements them. -/
theorem implements_of_assemble {source : String} {p : Program}
    (h : Source.assemble source = .ok p) :
    ∃ clauses, (∀ other, Source.Reads source other ↔ other = clauses) ∧
      Implements (Bytecode.encode p) clauses := by
  obtain ⟨readings, hreadings, rfl⟩ := Source.assemble_eq_ok_iff.1 h
  have hreads : Source.Reads source readings.reduceOption :=
    ⟨_, readings, Text.lines_eq_iff.1 rfl, hreadings, rfl⟩
  refine ⟨readings.reduceOption, fun other => ⟨fun hother => hother.unique hreads, ?_⟩, ?_⟩
  · rintro rfl
    exact hreads
  · exact implements_program readings.reduceOption

theorem implements_of_assemble_three_clauses :
    Source.assemble "ldc -1\n# store it\n\u00a0st 3\r\nldr +4" =
        .ok [⟨2#4, 0xFFFFFFF#28⟩, ⟨11#4, 3#28⟩, ⟨12#4, 4#28⟩] ∧
      ∃ clauses,
        (∀ other, Source.Reads "ldc -1\n# store it\n\u00a0st 3\r\nldr +4" other ↔
          other = clauses) ∧
        Implements (Bytecode.encode [⟨2#4, 0xFFFFFFF#28⟩, ⟨11#4, 3#28⟩, ⟨12#4, 4#28⟩]) clauses :=
  have h : Source.assemble "ldc -1\n# store it\n\u00a0st 3\r\nldr +4" =
      .ok [⟨2#4, 0xFFFFFFF#28⟩, ⟨11#4, 3#28⟩, ⟨12#4, 4#28⟩] :=
    Source.toOption_eq_some_iff.1 (by decide +kernel)
  ⟨h, implements_of_assemble h⟩

end Accumulator
