import Accumulator.Machine.Effects
import Accumulator.Machine.Trace
import Accumulator.Proofs.Faults
import Mathlib.Data.List.Forall2
set_option autoImplicit false

/-! # What a trace tells

The trace of an execution can be written down from the plain run alone. It opens with the loaded
program. Then each completed instruction has an `Entry`: the line that its opcode and its operand
make (`Instruction.Told`), and the machine that the program leads to if it is cut behind that
instruction. What comes last is the `Ending`: an instruction that failed for its address has told
its line before it failed, and one with an unknown opcode had nothing to tell.

A run is its instructions carried out in a row, and so is a traced run (`runTraced_cons`), with each
operation told before its first effect and the machine shown after the last. That is the step from
which the trace of a whole run follows (`exists_replay`). -/

namespace Accumulator

namespace Traced

variable {α β : Type}

/-- An activity that tells nothing. -/
def quiet (outcome : Outcome α) : Traced α := ⟨"", outcome⟩

/-- Tells a text and then does the rest. -/
def tell (text : String) (later : Traced α) : Traced α := ⟨text ++ later.text, later.outcome⟩

/-- Goes on with the result and the machine. After an error nothing follows, and what was told
    before it stays told. -/
def andThen (first : Traced α) (next : α → Machine → Traced β) : Traced β :=
  match first.outcome.result with
  | .ok a => tell first.text (next a first.outcome.machine)
  | .error e => ⟨first.text, .error e, first.outcome.machine⟩

end Traced

/-! ## The line of an instruction -/

namespace Instruction

/-- The line that is told of an instruction: what is done, and the number or the place of the memory
    that it is done with. -/
inductive Told (i : Instruction) : String → Prop
  | loadConstant : i.opcode = 2#4 → Told i ("load_constant(" ++ i.operand.toNat.repr ++ ")\n")
  | equal : i.opcode = 7#4 → Told i ("equal(M[" ++ i.operand.toNat.repr ++ "])\n")
  | store : i.opcode = 11#4 → Told i ("store(M[" ++ i.operand.toNat.repr ++ "])\n")
  | loadMemory : i.opcode = 12#4 → Told i ("load_memory(M[" ++ i.operand.toNat.repr ++ "])\n")

/-- Every operation is announced by its line. -/
theorem told_announcement {i : Instruction} {op : Operation} (h : i.operation? = some op) :
    i.Told i.announcement := by
  have hcode := operation?_eq_some_iff.1 h
  rw [announcement, h]
  cases op with
  | loadConstant => exact .loadConstant hcode
  | equal => exact .equal hcode
  | store => exact .store hcode
  | loadMemory => exact .loadMemory hcode

theorem announcement_of_no_operation {i : Instruction} (h : i.operation? = none) :
    i.announcement = "" := by
  rw [announcement, h]

end Instruction

namespace Machine

open Instruction

/-! ## One instruction -/

/-- Does what an operation asks for, and tells of it before that. -/
def operateTraced (m : Machine) (op : Operation) (i : Instruction) : Traced Unit :=
  .tell (operationLine op i.address) (.quiet (m.operate op i))

/-- Carries one instruction out in place, and tells of its operation. -/
def carryOutTraced (m : Machine) (i : Instruction) : Traced Unit :=
  match i.operation? with
  | none => .quiet ⟨.error (.unknownOpcode i.opcode.toNat m.executed), m⟩
  | some op => (m.operateTraced op i).andThen fun _ after => .quiet after.count

/-- An instruction tells of its operation, also if it fails, and does what it does untold. -/
theorem carryOutTraced_eq (m : Machine) (i : Instruction) :
    m.carryOutTraced i = ⟨i.announcement, m.carryOut i⟩ := by
  rw [carryOutTraced, carryOut, announcement]
  cases i.operation? with
  | none => rfl
  | some op =>
    have htold : operationLine op i.address ++ "" = operationLine op i.address := by simp
    simp only [operateTraced, Traced.andThen, Traced.tell, Traced.quiet, Outcome.andThen, htold]
    cases (m.operate op i).result <;> rfl

/-- A traced run carries out its instructions in a row and shows the machine after each. -/
theorem runTraced_cons (m : Machine) (i : Instruction) (rest : Program) :
    m.runTraced (i :: rest) =
      (m.carryOutTraced i).andThen fun _ next =>
        .tell (next.display ++ "\n") (next.runTraced rest) := by
  rw [runTraced, carryOutTraced_eq, carryOut_eq]
  cases m.step i with
  | error e => rfl
  | ok next => simp [Traced.andThen, Traced.tell, String.append_assoc]

/-- A step fails for an unknown opcode or for an address, and only in the second case there was an
    operation to tell of. -/
theorem step_eq_error {m : Machine} {i : Instruction} {e : Error} (h : m.step i = .error e) :
    (i.operation? = none ∧ e = .unknownOpcode i.opcode.toNat m.executed) ∨
      ∃ op, i.operation? = some op ∧ e = m.outOfBounds i.address := by
  have hnot : ¬ i.Executable m.memory.size := by
    intro hexecutable
    obtain ⟨next, hnext⟩ := step_of_executable hexecutable
    rw [hnext] at h
    simp at h
  rw [step_of_not_executable hnot] at h
  obtain rfl := Except.error.inj h
  cases hop : i.operation? with
  | none => exact .inl ⟨rfl, fault_of_no_operation hop ..⟩
  | some op => exact .inr ⟨op, rfl, fault_of_operation? hop ..⟩

/-! ## A run -/

/-- What is told of instruction number `n` of a program, which is completed: its line, and the
    machine after the program up to and including this instruction. -/
inductive Entry (m : Machine) (p : Program) (n : Nat) : String → Prop
  | intro {i : Instruction} {line : String} : p[n]? = some i → i.Told line →
      (m.run (p.take (n + 1))).result = .ok () →
        Entry m p n (line ++ ((m.run (p.take (n + 1))).machine.display ++ "\n"))

/-- What is told of a program last, when its first `k` instructions are completed and no more. -/
inductive Ending (m : Machine) (p : Program) (k : Nat) : String → Prop
  /-- There are no more. -/
  | finished : p.length = k → (m.run p).result = .ok () → Ending m p k ""
  /-- The next instruction uses an address outside the memory. Its line is told. -/
  | outOfBounds {i : Instruction} {line : String} : p[k]? = some i → i.Told line →
      (m.run p).result =
        .error (.outOfBounds i.operand.toNat m.memory.size (m.executed + k)) →
        Ending m p k line
  /-- The next instruction has an unknown opcode. -/
  | unknownOpcode {i : Instruction} : p[k]? = some i → ¬ (i.opcode = 2#4 ∨ i.UsesMemory) →
      (m.run p).result = .error (.unknownOpcode i.opcode.toNat (m.executed + k)) →
        Ending m p k ""

variable {m next : Machine} {i : Instruction}

/-- The entry of the first instruction. -/
theorem entry_zero (h : m.step i = .ok next) (rest : Program) :
    Entry m (i :: rest) 0 (i.announcement ++ (next.display ++ "\n")) := by
  have hrun : m.run ((i :: rest).take 1) = ⟨.ok (), next⟩ := run_of_step h []
  have hknown := executable_of_step h
  obtain ⟨op, hop⟩ := Option.ne_none_iff_exists'.1
    (opcode_eq_or_usesMemory_iff.1 (hknown.imp_right And.left))
  have hentry : Entry m (i :: rest) 0 _ := .intro rfl (told_announcement hop) (by rw [hrun])
  rwa [hrun] at hentry

/-- What is told of an instruction does not depend on where the program starts. -/
theorem Entry.cons {rest : Program} {n : Nat} {text : String} (h : Entry next rest n text)
    (hstep : m.step i = .ok next) : Entry m (i :: rest) (n + 1) text := by
  cases h with
  | intro hi htold hresult =>
    rw [← run_of_step hstep] at hresult ⊢
    exact .intro hi htold hresult

theorem Ending.cons {rest : Program} {k : Nat} {text : String} (h : Ending next rest k text)
    (hstep : m.step i = .ok next) : Ending m (i :: rest) (k + 1) text := by
  obtain ⟨hsize, -, hcount⟩ := step_keeps hstep
  have hposition : next.executed + k = m.executed + (k + 1) := by omega
  cases h with
  | finished hlength hresult =>
    rw [← run_of_step hstep] at hresult
    exact .finished (by rw [List.length_cons, hlength]) hresult
  | outOfBounds hi htold hresult =>
    rw [← run_of_step hstep, hsize, hposition] at hresult
    exact .outOfBounds hi htold hresult
  | unknownOpcode hi hunknown hresult =>
    rw [← run_of_step hstep, hposition] at hresult
    exact .unknownOpcode hi hunknown hresult

/-- A first instruction that fails is all that there is to tell of. -/
theorem ending_zero {e : Error} (h : m.step i = .error e) (rest : Program) :
    Ending m (i :: rest) 0 i.announcement := by
  have hresult : (m.run (i :: rest)).result = .error e := by rw [run, h]
  rcases step_eq_error h with ⟨hop, rfl⟩ | ⟨op, hop, rfl⟩
  · have hunknown : ¬ (i.opcode = 2#4 ∨ i.UsesMemory) := by
      rw [opcode_eq_or_usesMemory_iff, hop]
      simp
    rw [announcement_of_no_operation hop]
    exact .unknownOpcode rfl hunknown hresult
  · exact .outOfBounds rfl (told_announcement hop) hresult

/-- A traced run tells the entries of the instructions that it completes, and then the ending. -/
theorem exists_replay (m : Machine) (p : Program) :
    ∃ k entries ending, k ≤ p.length ∧ (m.run p).machine.executed = m.executed + k ∧
      List.Forall₂ (Entry m p) (List.range k) entries ∧ Ending m p k ending ∧
      (m.runTraced p).text = String.join entries ++ ending := by
  induction p generalizing m with
  | nil => exact ⟨0, [], "", Nat.le_refl _, rfl, .nil, .finished rfl rfl, rfl⟩
  | cons i rest ih =>
    rw [runTraced_cons, carryOutTraced_eq, carryOut_eq]
    cases hstep : m.step i with
    | error e =>
      have hrun : (m.run (i :: rest)).machine = m := by rw [run, hstep]
      refine ⟨0, [], _, Nat.zero_le _, by rw [hrun]; rfl, .nil, ending_zero hstep rest, ?_⟩
      simp [Traced.andThen]
    | ok next =>
      obtain ⟨k, entries, ending, hle, hcount, hentries, hending, htext⟩ := ih next
      obtain ⟨-, -, hexecuted⟩ := step_keeps hstep
      refine ⟨k + 1, (i.announcement ++ (next.display ++ "\n")) :: entries, ending,
        Nat.succ_le_succ hle, ?_, ?_, hending.cons hstep, ?_⟩
      · rw [run_of_step hstep, hcount, hexecuted]
        omega
      · rw [List.range_succ_eq_map]
        refine .cons (entry_zero hstep rest) ?_
        rw [List.forall₂_map_left_iff]
        exact hentries.imp fun n text hentry => hentry.cons hstep
      · simp only [Traced.andThen, Traced.tell, htext]
        simp [String.append_assoc]

/-- **A trace is a faithful replay.** Of a stream that is refused nothing is told. Of any other the
    loaded program is told, then an entry for each instruction that is completed, in order, with the
    machine as it is after the program up to this instruction, and then the ending: the line of an
    instruction that uses an address outside the memory, and nothing if the opcode is unknown or the
    program is at its end. -/
theorem executeTraced_replays (m : Machine) (bytes : Bytes) (w : Window) :
    (∀ e, m.load bytes = .error e → (m.executeTraced bytes w).text = "") ∧
    ∀ p, m.load bytes = .ok p →
      ∃ k entries ending, k ≤ p.length ∧ (m.run p).machine.executed = m.executed + k ∧
        List.Forall₂ (Entry m p) (List.range k) entries ∧ Ending m p k ending ∧
        (m.executeTraced bytes w).text = "# Loaded Program\n" ++ Source.disassemble p ++ "\n" ++
          String.join entries ++ ending := by
  refine ⟨fun e he => by rw [executeTraced, he], fun p hp => ?_⟩
  obtain ⟨k, entries, ending, hle, hcount, hentries, hending, htext⟩ := m.exists_replay p
  refine ⟨k, entries, ending, hle, hcount, hentries, hending, ?_⟩
  simp only [executeTraced, hp, htext, programText]
  simp [String.append_assoc]

end Machine

end Accumulator
