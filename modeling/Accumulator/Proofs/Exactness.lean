import Accumulator.Proofs.Gathering
set_option autoImplicit false

/-! # Written operands are kept exactly

An operand is written as an integer of any size, with a sign or without one and with any number of
leading zeros. An instruction has room for twenty-eight bits of it and a log record for sixty-four,
and what they hold is told by the integer alone (`KeptExactly`), however it was written: the
arithmetic that wraps around at thirty-two bits, the sign, the cut to twenty-eight bits and the
separate reading for the log all agree with the arithmetic of the integers
(`numeral_kept_exactly`). -/

namespace Accumulator

/-- What an instruction and its record keep of an integer that was written as operand. -/
structure KeptExactly (value : Int) (i : Instruction) (r : LogRecord) : Prop where
  /-- The instruction has the integer modulo `2 ^ 28`; the remainder is never negative. -/
  instruction_eq : (i.operand.toNat : Int) = value % 2 ^ 28
  /-- The record has the integer itself, if a cell can hold it. -/
  record_eq : -2 ^ 63 ≤ value → value < 2 ^ 63 → r.operand.toInt = value
  /-- An integer that no cell can hold leaves the record with what the instruction has. -/
  record_eq_instruction :
    value < -2 ^ 63 ∨ 2 ^ 63 ≤ value → r.operand.toInt = i.operand.toNat

theorem Clause.keptExactly (c : Clause) :
    KeptExactly c.value c.statement.instruction c.statement.record where
  instruction_eq := c.encodes_instruction.2
  record_eq := by
    intro hlow hhigh
    rw [toInt_operand_record, if_pos ⟨hlow, hhigh⟩]
  record_eq_instruction := by
    intro hlarge
    have hnot : ¬ (-2 ^ 63 ≤ c.value ∧ c.value < 2 ^ 63) := by omega
    rw [toInt_operand_record, if_neg hnot, c.encodes_instruction.2]

namespace Source

open Text

/-- The line of a numeral is one clause among those of its source. -/
theorem reads_of_numeral {numeral : List Char} {value : Int} (hnumeral : Numeral numeral value)
    (op : Operation) {front between back : List Char} (hfront : Blanks front)
    (hbetween : IsGap between) (hback : Blanks back) {above below : List (List Char)}
    {before after : List (Option Clause)} (habove : List.Forall₂ LineReads above before)
    (hbelow : List.Forall₂ LineReads below after) {source : String}
    (hlines : Lines source.toList
      (above ++ (front ++ op.mnemonic.toList ++ between ++ numeral ++ back) :: below)) :
    Reads source (before.reduceOption ++ ⟨op, value⟩ :: after.reduceOption) := by
  refine ⟨_, before ++ some ⟨op, value⟩ :: after, hlines, ?_, ?_⟩
  · exact List.rel_append habove (.cons (.clause op hfront hbetween hnumeral hback) hbelow)
  · rw [List.reduceOption_append, List.reduceOption_cons_of_some]

/-- An assembler adds the instructions and the records of a source's clauses. -/
theorem assemble_of_reads {source : String} {clauses : List Clause} (h : Reads source clauses)
    (a : Assembler) :
    assemble source = .ok (clauses.map fun c => c.statement.instruction) ∧
      a.assemble source =
        (.ok (a.program ++ clauses.map fun c => c.statement.instruction),
          ⟨a.program ++ clauses.map fun c => c.statement.instruction,
            a.log ++ clauses.map fun c => c.statement.record⟩) := by
  have hstatements := statements_eq_ok_iff.2 ⟨clauses, h, rfl⟩
  constructor
  · rw [assemble, hstatements]
    simp [Except.map]
  · rw [Assembler.assemble, hstatements]
    simp [Assembler.append]

/-- **Operands are kept exactly, at every size.** A numeral of any length stands as the operand of a
    statement anywhere in a source whose other lines are accepted. The source assembles, and the
    instruction and the log record of that statement keep the integer exactly. -/
theorem numeral_kept_exactly {numeral : List Char} {value : Int} (hnumeral : Numeral numeral value)
    (op : Operation) {front between back : List Char} (hfront : Blanks front)
    (hbetween : IsGap between) (hback : Blanks back) {above below : List (List Char)}
    {before after : List (Option Clause)} (habove : List.Forall₂ LineReads above before)
    (hbelow : List.Forall₂ LineReads below after) {source : String}
    (hlines : Lines source.toList
      (above ++ (front ++ op.mnemonic.toList ++ between ++ numeral ++ back) :: below))
    (a : Assembler) :
    ∃ p log i r, assemble source = .ok p ∧
      a.assemble source = (.ok (a.program ++ p), ⟨a.program ++ p, a.log ++ log⟩) ∧
      p[before.reduceOption.length]? = some i ∧ log[before.reduceOption.length]? = some r ∧
      i.operation? = some op ∧ KeptExactly value i r := by
  have hreads := reads_of_numeral hnumeral op hfront hbetween hback habove hbelow hlines
  obtain ⟨hprogram, hassembler⟩ := assemble_of_reads hreads a
  let c : Clause := ⟨op, value⟩
  refine ⟨_, _, c.statement.instruction, c.statement.record, hprogram, hassembler, ?_, ?_,
    c.instruction_operation?, c.keptExactly⟩
  · simp [c]
  · simp [c]

/-- The largest integer that is too small for a cell, with leading zeros. -/
theorem numeral_kept_exactly_below_cells :
    Numeral "-0009223372036854775809".toList (-9223372036854775809) ∧
      ∃ p log i r, assemble "# too small\nldc -0009223372036854775809" = .ok p ∧
        Assembler.empty.assemble "# too small\nldc -0009223372036854775809" =
          (.ok (Assembler.empty.program ++ p),
            ⟨Assembler.empty.program ++ p, Assembler.empty.log ++ log⟩) ∧
        p[0]? = some i ∧ log[0]? = some r ∧ i.operation? = some .loadConstant ∧
        KeptExactly (-9223372036854775809) i r := by
  have hnumeral : Numeral "-0009223372036854775809".toList (-9223372036854775809) :=
    integer?_eq_some_iff.1 (by decide +kernel)
  have hgap : IsGap [' '] := ⟨by simp, blanks_singleton (by decide)⟩
  have hcomment : LineReads "# too small".toList none := LineReads.comment blanks_nil
  exact ⟨hnumeral, numeral_kept_exactly hnumeral .loadConstant blanks_nil hgap blanks_nil
    (.cons hcomment .nil) .nil (lines_eq_iff.1 (by decide +kernel)) Assembler.empty⟩

end Source

end Accumulator
