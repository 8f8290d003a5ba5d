import Accumulator.Assembler
import Accumulator.Proofs.Grammar
set_option autoImplicit false

/-! # Gathering sources

An assembler is given any number of sources. Those that it accepts add their statements, and the
others leave no trace (`after_eq_append`), so that its program and its log are always those of one
list of statements.

The instruction and the record of a statement show the same opcode but not always the same operand:
a record shows the integer as it was written, if a cell can hold it, and the instruction shows it
modulo `2 ^ 28`. What is encoded can therefore be told from the log (`Shows.instruction_eq`), and
the log can be told from the program as long as no integer was written that fits a cell but not an
operand (`record_eq_ofInstruction_iff`). `Gathered` puts this together. -/

namespace Accumulator

/-! ## Records and instructions -/

namespace LogRecord

/-- A record shows an instruction if it has its opcode, its mnemonic, and its operand up to a
    multiple of `2 ^ 28`. -/
structure Shows (r : LogRecord) (i : Instruction) : Prop where
  opcode : r.opcode = i.opcode
  mnemonic : r.mnemonic = Operation.mnemonicOfCode i.opcode.toNat
  operand : r.operand.toInt % 2 ^ 28 = i.operand.toNat

/-- The instruction that is made of the numbers in a record, the operand cut to thirty-two bits. -/
def instruction (r : LogRecord) : Instruction :=
  Instruction.ofFields r.opcode.toNat (r.operand.toInt % 2 ^ 32).toNat

/-- A record tells which instruction it shows. -/
theorem Shows.instruction_eq {r : LogRecord} {i : Instruction} (h : r.Shows i) :
    r.instruction = i := by
  have hoperand : BitVec.ofNat 28 (r.operand.toInt % 2 ^ 32).toNat = i.operand := by
    apply BitVec.eq_of_toNat_eq
    rw [BitVec.toNat_ofNat]
    have hshown := h.operand
    omega
  rw [instruction, Instruction.ofFields, hoperand, h.opcode, BitVec.ofNat_toNat,
    BitVec.setWidth_eq]

end LogRecord

namespace Clause

/-- The integer of a clause fits a cell, but it does not fit an operand. -/
def OnlyFitsCell (c : Clause) : Prop :=
  (-2 ^ 63 ≤ c.value ∧ c.value < 2 ^ 63) ∧ ¬ (0 ≤ c.value ∧ c.value < 2 ^ 28)

/-- A record shows the operand that was written if a cell can hold it, and else the one that was
    encoded. -/
theorem toInt_operand_record (c : Clause) :
    c.statement.record.operand.toInt =
      if -2 ^ 63 ≤ c.value ∧ c.value < 2 ^ 63 then c.value else c.value % 2 ^ 28 := by
  show ((Cell.ofInt? c.value).getD (Cell.ofOperand c.statement.instruction.operand)).toInt = _
  cases hcell : Cell.ofInt? c.value with
  | some cell =>
    have hfits : -2 ^ 63 ≤ c.value ∧ c.value < 2 ^ 63 := by
      rw [← Cell.toInt_of_ofInt? hcell]
      exact ⟨cell.le_toInt, cell.toInt_lt⟩
    rw [if_pos hfits]
    exact Cell.toInt_of_ofInt? hcell
  | none =>
    have hlarge : ¬ (-2 ^ 63 ≤ c.value ∧ c.value < 2 ^ 63) := by
      intro hfits
      rw [Cell.ofInt?, if_pos (by omega)] at hcell
      simp at hcell
    rw [if_neg hlarge, ← c.encodes_instruction.2]
    exact Cell.toInt_ofOperand _

/-- The record of a clause shows its instruction. -/
theorem shows_statement (c : Clause) : c.statement.record.Shows c.statement.instruction where
  opcode := rfl
  mnemonic := rfl
  operand := by
    rw [c.encodes_instruction.2, toInt_operand_record]
    split
    · rfl
    · exact Int.emod_emod _ _

/-- The record of a clause can be made of its instruction, unless its integer fits nothing but a
    cell. -/
theorem record_eq_ofInstruction_iff (c : Clause) :
    c.statement.record = LogRecord.ofInstruction c.statement.instruction ↔ ¬ c.OnlyFitsCell := by
  have hoperand : c.statement.record = LogRecord.ofInstruction c.statement.instruction ↔
      c.statement.record.operand.toInt = c.value % 2 ^ 28 := by
    rw [← c.encodes_instruction.2, ← Cell.toInt_ofOperand, Int64.toInt_inj]
    exact ⟨congrArg LogRecord.operand, congrArg (LogRecord.ofWritten c.statement.instruction)⟩
  rw [hoperand, toInt_operand_record, OnlyFitsCell]
  split
  · omega
  · next hlarge => exact iff_of_true rfl fun honly => hlarge honly.1

end Clause

/-! ## One source -/

namespace Source

theorem statements_eq_ok_iff {source : String} {found : List Statement} :
    statements source = .ok found ↔
      ∃ clauses, Reads source clauses ∧ found = clauses.map Clause.statement := by
  rw [statements, statementsFrom_eq_ok_iff]
  constructor
  · rintro ⟨readings, hreadings, rfl⟩
    exact ⟨_, ⟨_, readings, Text.lines_eq_iff.1 rfl, hreadings, rfl⟩, rfl⟩
  · rintro ⟨_, ⟨lines, readings, hlines, hreadings, rfl⟩, rfl⟩
    obtain rfl := Text.lines_of_Lines hlines
    exact ⟨readings, hreadings, rfl⟩

end Source

namespace Assembler

/-- An assembler after the given sources, one after another. -/
def after (a : Assembler) (sources : List String) : Assembler :=
  sources.foldl (fun b source => (b.assemble source).2) a

/-- The statements of the sources that are accepted, in order. -/
def accepted (sources : List String) : List Statement :=
  (sources.filterMap fun source => (Source.statements source).toOption).flatten

theorem append_append (a : Assembler) (xs ys : List Statement) :
    (a.append xs).append ys = a.append (xs ++ ys) := by
  simp [append]

theorem accepted_cons_of_ok {source : String} {found : List Statement}
    (h : Source.statements source = .ok found) (later : List String) :
    accepted (source :: later) = found ++ accepted later := by
  have hsome : (Source.statements source).toOption = some found :=
    Source.toOption_eq_some_iff.2 h
  simp only [accepted, List.filterMap_cons, hsome, List.flatten_cons]

theorem accepted_cons_of_error {source : String} {e : Error}
    (h : Source.statements source = .error e) (later : List String) :
    accepted (source :: later) = accepted later := by
  have hnone : (Source.statements source).toOption = none := by rw [h]; rfl
  simp only [accepted, List.filterMap_cons, hnone]

/-- Sources that are accepted add their statements, and the others add nothing. -/
theorem after_eq_append (a : Assembler) (sources : List String) :
    a.after sources = a.append (accepted sources) := by
  induction sources generalizing a with
  | nil => simp [after, accepted, append]
  | cons source later ih =>
    show (a.assemble source).2.after later = a.append (accepted (source :: later))
    rw [assemble]
    cases hfound : Source.statements source with
    | error e => rw [accepted_cons_of_error hfound, ih]
    | ok found => rw [accepted_cons_of_ok hfound, ih, append_append]

/-! ## What an assembler has gathered -/

/-- How an assembler stands after the given sources. -/
structure Gathered (sources : List String) (a : Assembler) : Prop where
  /-- The program is that of the sources that are accepted, one after another. -/
  program_eq :
    a.program = (sources.filterMap fun source => (Source.assemble source).toOption).flatten
  /-- The log has one record for each instruction, and the record shows the instruction. -/
  log_shows : List.Forall₂ LogRecord.Shows a.log a.program
  /-- The bytes can be made of the log alone. -/
  binary_eq : a.binary = Bytecode.encode (a.log.map LogRecord.instruction)
  /-- The log can be made of the program alone, unless an integer was written that fits a cell and
      does not fit an operand. A source with clauses is one that is accepted. -/
  log_eq_iff : a.log = Log.ofProgram a.program ↔
    ∀ source ∈ sources, ∀ clauses, Source.Reads source clauses → ∀ c ∈ clauses, ¬ c.OnlyFitsCell

theorem mem_accepted_iff {sources : List String} {s : Statement} :
    s ∈ accepted sources ↔
      ∃ source ∈ sources, ∃ clauses, Source.Reads source clauses ∧
        ∃ c ∈ clauses, c.statement = s := by
  simp only [accepted, List.mem_flatten, List.mem_filterMap, Source.toOption_eq_some_iff,
    Source.statements_eq_ok_iff]
  constructor
  · rintro ⟨_, ⟨source, hsource, clauses, hreads, rfl⟩, hs⟩
    exact ⟨source, hsource, clauses, hreads, List.mem_map.1 hs⟩
  · rintro ⟨source, hsource, clauses, hreads, hs⟩
    exact ⟨_, ⟨source, hsource, clauses, hreads, rfl⟩, List.mem_map.2 hs⟩

theorem map_instruction_accepted (sources : List String) :
    (accepted sources).map Statement.instruction =
      (sources.filterMap fun source => (Source.assemble source).toOption).flatten := by
  have hsource : ∀ source, (Source.assemble source).toOption =
      (Source.statements source).toOption.map (List.map Statement.instruction) := by
    intro source
    rw [Source.assemble]
    cases Source.statements source <;> rfl
  simp only [accepted, List.map_flatten, List.map_filterMap, hsource]

theorem forall₂_shows_accepted (sources : List String) :
    List.Forall₂ LogRecord.Shows ((accepted sources).map Statement.record)
      ((accepted sources).map Statement.instruction) := by
  rw [List.forall₂_map_left_iff, List.forall₂_map_right_iff, List.forall₂_same]
  intro s hs
  obtain ⟨_, -, _, -, c, -, rfl⟩ := mem_accepted_iff.1 hs
  exact c.shows_statement

theorem record_accepted_iff (sources : List String) :
    (accepted sources).map Statement.record =
        Log.ofProgram ((accepted sources).map Statement.instruction) ↔
      ∀ source ∈ sources, ∀ clauses, Source.Reads source clauses →
        ∀ c ∈ clauses, ¬ c.OnlyFitsCell := by
  simp only [Log.ofProgram, List.map_map, List.map_inj_left, Function.comp_apply]
  constructor
  · intro h source hsource clauses hreads c hc
    exact c.record_eq_ofInstruction_iff.1
      (h _ (mem_accepted_iff.2 ⟨source, hsource, clauses, hreads, c, hc, rfl⟩))
  · intro h s hs
    obtain ⟨source, hsource, clauses, hreads, c, hc, rfl⟩ := mem_accepted_iff.1 hs
    exact c.record_eq_ofInstruction_iff.2 (h source hsource clauses hreads c hc)

theorem map_instruction_of_shows {log : List LogRecord} {p : Program}
    (h : List.Forall₂ LogRecord.Shows log p) : log.map LogRecord.instruction = p := by
  induction h with
  | nil => rfl
  | cons hshows _ ih => rw [List.map_cons, hshows.instruction_eq, ih]

theorem gathered_empty_after (sources : List String) :
    Gathered sources (empty.after sources) := by
  have hshows := forall₂_shows_accepted sources
  rw [after_eq_append]
  refine ⟨map_instruction_accepted sources, hshows, ?_, record_accepted_iff sources⟩
  rw [binary]
  exact congrArg Bytecode.encode (map_instruction_of_shows hshows).symm

theorem assemble_fst_eq_error_iff {a : Assembler} {source : String} {e : Error} :
    (a.assemble source).1 = .error e ↔ Source.assemble source = .error e := by
  rw [assemble, Source.assemble]
  cases Source.statements source <;> simp [Except.map]

theorem assemble_snd_of_error {a : Assembler} {source : String} {e : Error}
    (h : (a.assemble source).1 = .error e) : (a.assemble source).2 = a := by
  rw [assemble] at h ⊢
  cases hfound : Source.statements source with
  | error e => rfl
  | ok found => simp [hfound] at h

/-- **An assembler holds what the accepted sources hold, and a refused source leaves it alone.** Its
    log always shows its program record by record, and says no less than its bytes. A source is
    refused for the reason for which it is refused alone, whatever was gathered before. -/
theorem gathered_after :
    (∀ sources : List String, Gathered sources (empty.after sources)) ∧
    ∀ (a : Assembler) (source : String) (e : Error),
      ((a.assemble source).1 = .error e ↔ Source.assemble source = .error e) ∧
        ((a.assemble source).1 = .error e → (a.assemble source).2 = a) :=
  ⟨gathered_empty_after, fun _ _ _ => ⟨assemble_fst_eq_error_iff, assemble_snd_of_error⟩⟩

end Assembler

end Accumulator
