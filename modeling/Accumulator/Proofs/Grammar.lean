import Accumulator.Source
import Accumulator.Proofs.Numerals
import Accumulator.Proofs.Text.Lines
import Accumulator.Proofs.Text.Words
import Mathlib.Data.List.ReduceOption
import Mathlib.Data.List.Forall2
import Mathlib.Algebra.Group.Int.Defs
set_option autoImplicit false

/-! # The grammar of assembly source

A line of source holds at most one *clause*, a mnemonic and an integer; `LineReads` says which texts
are lines and what they hold, and `Reads` says it of a whole source. Neither mentions how a line is
taken apart, how many bits a word has, or what becomes of a line that is refused.

The assembler accepts the sources of this grammar and no others, and gives the instructions of their
clauses (`assemble_iff_grammar`). A clause holds an integer of any size, and its instruction holds
that integer modulo `2 ^ 28`. -/

namespace Accumulator

/-- An operation and the integer that is written for it. -/
@[ext]
structure Clause where
  operation : Operation
  value : Int
deriving DecidableEq, Repr

namespace Clause

/-- What is kept of a clause when a line is read. -/
def statement (c : Clause) : Statement :=
  ⟨c.operation, UInt32.ofInt c.value, Cell.ofInt? c.value⟩

/-- The instruction has the code of the clause's operation, and its integer modulo `2 ^ 28`. -/
def Encodes (c : Clause) (i : Instruction) : Prop :=
  i.opcode = (match c.operation with
    | .loadConstant => 2#4
    | .equal => 7#4
    | .store => 11#4
    | .loadMemory => 12#4) ∧
  (i.operand.toNat : Int) = c.value % 2 ^ 28

end Clause

namespace Source

open Text

/-- What a line of source holds, if anything. -/
inductive LineReads : List Char → Option Clause → Prop
  /-- Nothing but blanks. -/
  | blank {line : List Char} : Blanks line → LineReads line none
  /-- A comment, its sign being the first character that is not blank. -/
  | comment {front rest : List Char} : Blanks front → LineReads (front ++ '#' :: rest) none
  /-- A mnemonic and an integer. -/
  | clause {front between numeral back : List Char} {value : Int} (operation : Operation) :
      Blanks front → IsGap between → Numeral numeral value → Blanks back →
        LineReads (front ++ operation.mnemonic.toList ++ between ++ numeral ++ back)
          (some ⟨operation, value⟩)

/-- The clauses of a source, in the order of its lines. -/
def Reads (source : String) (clauses : List Clause) : Prop :=
  ∃ lines readings, Lines source.toList lines ∧ List.Forall₂ LineReads lines readings ∧
    clauses = readings.reduceOption

end Source

/-! ## Mnemonics are words -/

theorem Operation.isWord_mnemonic (op : Operation) : Text.IsWord op.mnemonic.toList := by
  rw [Text.isWord_iff_all]
  cases op <;> decide

theorem Operation.head?_mnemonic_ne (op : Operation) : op.mnemonic.toList.head? ≠ some '#' := by
  cases op <;> decide

/-! ## Reading a line -/

namespace Statement

open Text Source

/-- Lines that are passed over hold nothing. -/
theorem isIdle_trim_iff {line : List Char} :
    isIdle (trim line) = true ↔ LineReads line none := by
  rw [isIdle, Bool.or_eq_true, List.isEmpty_iff, beq_iff_eq]
  constructor
  · intro h
    rcases h with hempty | hhead
    · exact .blank (trim_eq_nil_iff.1 hempty)
    · obtain ⟨front, back, hfront, -, heq⟩ := exists_eq_append_trim line
      obtain ⟨rest, hrest⟩ := List.head?_eq_some_iff.1 hhead
      rw [heq, hrest, List.append_assoc, List.cons_append]
      exact .comment hfront
  · intro h
    cases h with
    | blank hblank => exact .inl (trim_eq_nil_iff.2 hblank)
    | comment hfront => exact .inr (head?_trim_append_cons hfront (by decide))

theorem isIdle_eq_false {body : List Char} (hne : body ≠ []) (hhead : body.head? ≠ some '#') :
    isIdle body = false := by
  simp [isIdle, hne, hhead]

theorem ne_nil_of_not_isIdle {body : List Char} (h : ¬ isIdle body = true) : body ≠ [] := by
  rintro rfl
  exact h rfl

/-- A line with two words is read as those words, wherever blanks stand around them. -/
theorem ofLine_of_two_words {front first between second back : List Char} (number : Nat)
    (hfront : Blanks front) (hfirst : IsWord first) (hbetween : IsGap between)
    (hsecond : IsWord second) (hback : Blanks back) (hcomment : first.head? ≠ some '#') :
    ofLine number (front ++ first ++ between ++ second ++ back) =
      (ofWords number (first ++ (between ++ second)) first second).map some := by
  have hspaced := spaced_pair hfirst hbetween hsecond
  have hne : first ++ (between ++ second) ≠ [] := by simp [hfirst.1]
  have hidle : isIdle (first ++ (between ++ second)) = false :=
    isIdle_eq_false hne (by rwa [head?_append_of_ne_nil hfirst.1])
  rw [ofLine, trim_two_words hfront hfirst hsecond hback, hidle]
  simp only [Bool.false_eq_true, if_false, (whole_words_eq_some_iff hne).2 hspaced]

theorem ofWords_eq_ok_iff {number : Nat} {body first second : List Char} {s : Statement} :
    ofWords number body first second = .ok s ↔
      ∃ operation value, operation.mnemonic.toList = first ∧ Numeral second value ∧
        s = Clause.statement ⟨operation, value⟩ := by
  rw [ofWords]
  constructor
  · intro h
    split at h
    · simp at h
    · next operation hop =>
      rw [Operation.ofMnemonic?_eq_some_iff] at hop
      split at h
      · simp at h
      · next operand hoperand =>
        obtain ⟨value, hvalue, rfl⟩ := Operand.ofChars?_eq_some_iff.1 hoperand
        obtain rfl := Except.ok.inj h
        exact ⟨operation, value, by rw [hop, String.toList_ofList], hvalue, rfl⟩
  · intro h
    rcases h with ⟨operation, value, rfl, hvalue, rfl⟩
    have hop : Operation.ofMnemonic? (String.ofList operation.mnemonic.toList) = some operation :=
      Operation.ofMnemonic?_eq_some_iff.2 String.ofList_toList.symm
    simp only [hop, Operand.ofChars?_eq_some_iff.2 ⟨value, hvalue, rfl⟩, Clause.statement]

theorem lineReads_of_ofLine {number : Nat} {line : List Char} {found : Option Statement}
    (h : ofLine number line = .ok found) :
    ∃ reading, LineReads line reading ∧ found = reading.map Clause.statement := by
  rw [ofLine] at h
  split at h
  · next hidle =>
    obtain rfl := Except.ok.inj h
    exact ⟨none, isIdle_trim_iff.1 hidle, rfl⟩
  · next hidle =>
    have hne := ne_nil_of_not_isIdle hidle
    split at h
    · simp at h
    · next first second hwords =>
      -- the words stand in the trimmed line, and the blanks around it are those of the clause
      rw [whole_words_eq_some_iff hne] at hwords
      obtain ⟨between, -, hbetween, -, hbody⟩ := eq_of_spaced_pair hwords
      obtain ⟨front, back, hfront, hback, heq⟩ := exists_eq_append_trim line
      obtain ⟨s, hs, rfl⟩ : ∃ s, ofWords number (trim line) first second = .ok s ∧
          found = some s := by
        cases hs : ofWords number (trim line) first second with
        | error e => simp [hs, Except.map] at h
        | ok s => exact ⟨s, rfl, by simpa [hs, Except.map] using h.symm⟩
      obtain ⟨operation, value, rfl, hvalue, rfl⟩ := ofWords_eq_ok_iff.1 hs
      refine ⟨some ⟨operation, value⟩, ?_, rfl⟩
      rw [heq, hbody]
      simpa only [List.append_assoc] using
        LineReads.clause operation hfront hbetween hvalue hback
    · simp at h

theorem ofLine_of_lineReads (number : Nat) {line : List Char} {reading : Option Clause}
    (h : LineReads line reading) : ofLine number line = .ok (reading.map Clause.statement) := by
  cases h with
  | blank hblank =>
    rw [ofLine, if_pos (isIdle_trim_iff.2 (.blank hblank))]
    rfl
  | comment hfront =>
    rw [ofLine, if_pos (isIdle_trim_iff.2 (.comment hfront))]
    rfl
  | clause operation hfront hbetween hnumeral hback =>
    rw [ofLine_of_two_words number hfront operation.isWord_mnemonic hbetween hnumeral.isWord hback
      operation.head?_mnemonic_ne, ofWords_eq_ok_iff.2 ⟨operation, _, rfl, hnumeral, rfl⟩]
    rfl

/-- A line is read as the grammar says, and refused if the grammar says nothing. -/
theorem ofLine_eq_ok_iff {number : Nat} {line : List Char} {found : Option Statement} :
    ofLine number line = .ok found ↔
      ∃ reading, LineReads line reading ∧ found = reading.map Clause.statement := by
  refine ⟨lineReads_of_ofLine, ?_⟩
  rintro ⟨reading, h, rfl⟩
  exact ofLine_of_lineReads number h

end Statement

namespace Source

open Text

theorem LineReads.words_trim {line : List Char} {c : Clause} (h : LineReads line (some c)) :
    ∃ numeral, words.whole (trim line) = some [c.operation.mnemonic.toList, numeral] ∧
      Numeral numeral c.value := by
  cases h with
  | @clause front between numeral back value operation hfront hbetween hnumeral hback =>
    have hspaced := spaced_pair operation.isWord_mnemonic hbetween hnumeral.isWord
    refine ⟨numeral, ?_, hnumeral⟩
    rw [trim_two_words hfront operation.isWord_mnemonic hnumeral.isWord hback]
    exact (whole_words_eq_some_iff (by simp [operation.isWord_mnemonic.1])).2 hspaced

theorem LineReads.ne_none {line : List Char} {c : Clause} (h : LineReads line (some c)) :
    ¬ LineReads line none := by
  intro hnone
  have hsome := Statement.ofLine_of_lineReads 1 h
  rw [Statement.ofLine_of_lineReads 1 hnone] at hsome
  simp at hsome

/-- The grammar is unambiguous: a line holds one thing at most. -/
theorem LineReads.unique {line : List Char} {r₁ r₂ : Option Clause} (h₁ : LineReads line r₁)
    (h₂ : LineReads line r₂) : r₁ = r₂ := by
  cases r₁ with
  | none =>
    cases r₂ with
    | none => rfl
    | some c₂ => exact absurd h₁ h₂.ne_none
  | some c₁ =>
    cases r₂ with
    | none => exact absurd h₂ h₁.ne_none
    | some c₂ =>
      -- the words of the line fix its mnemonic and its numeral, and each of them fixes a field
      obtain ⟨numeral₁, hwords₁, hvalue₁⟩ := h₁.words_trim
      obtain ⟨numeral₂, hwords₂, hvalue₂⟩ := h₂.words_trim
      rw [hwords₁] at hwords₂
      simp only [Option.some.injEq, List.cons.injEq, and_true, String.toList_inj] at hwords₂
      obtain ⟨hmnemonic, rfl⟩ := hwords₂
      have hoperation := Operation.mnemonic_injective hmnemonic
      have hvalue : c₁.value = c₂.value := by
        rw [← integer?_eq_some_iff] at hvalue₁ hvalue₂
        exact Option.some.inj (hvalue₁.symm.trans hvalue₂)
      exact congrArg some (Clause.ext hoperation hvalue)

end Source

/-! ## Reading a source -/

namespace Clause

theorem encodes_instruction (c : Clause) : c.Encodes c.statement.instruction := by
  constructor
  · obtain ⟨operation, value⟩ := c
    cases operation <;> rfl
  · show (((UInt32.ofInt c.value).toNat % 2 ^ 28 : Nat) : Int) = c.value % 2 ^ 28
    rw [UInt32.ofInt, UInt32.toNat_ofNat']
    omega

/-- A clause has one instruction. -/
theorem Encodes.unique {c : Clause} {i j : Instruction} (hi : c.Encodes i) (hj : c.Encodes j) :
    i = j := by
  obtain ⟨hiop, hiarg⟩ := hi
  obtain ⟨hjop, hjarg⟩ := hj
  have hoperand : i.operand.toNat = j.operand.toNat := by exact_mod_cast hiarg.trans hjarg.symm
  obtain ⟨opcode, operand⟩ := i
  rw [Instruction.mk.injEq]
  exact ⟨hiop.trans hjop.symm, BitVec.eq_of_toNat_eq hoperand⟩

theorem encodes_iff {c : Clause} {i : Instruction} :
    c.Encodes i ↔ c.statement.instruction = i := by
  constructor
  · exact c.encodes_instruction.unique
  · rintro rfl
    exact c.encodes_instruction

@[simp]
theorem instruction_operation? (c : Clause) :
    c.statement.instruction.operation? = some c.operation :=
  Instruction.operation?_ofOperation c.operation _

theorem forall₂_encodes_iff {clauses : List Clause} {p : Program} :
    List.Forall₂ Encodes clauses p ↔ p = clauses.map fun c => c.statement.instruction := by
  have hencodes : Encodes = fun c i => c.statement.instruction = i := by
    funext c i
    exact propext encodes_iff
  rw [hencodes, ← List.forall₂_map_left_iff (R := Eq), List.forall₂_eq_eq_eq]
  exact eq_comm

end Clause

namespace Source

open Text

theorem map_eq_ok_iff {α β : Type} {f : α → β} {x : Except Error α} {b : β} :
    x.map f = .ok b ↔ ∃ a, x = .ok a ∧ f a = b := by
  cases x <;> simp [Except.map]

theorem toOption_eq_some_iff {α : Type} {x : Except Error α} {a : α} :
    x.toOption = some a ↔ x = .ok a := by
  cases x <;> simp [Except.toOption]

theorem statementsFrom_eq_ok_iff {number : Nat} {lines : List (List Char)}
    {statements : List Statement} :
    statementsFrom number lines = .ok statements ↔
      ∃ readings, List.Forall₂ LineReads lines readings ∧
        statements = readings.reduceOption.map Clause.statement := by
  induction lines generalizing number statements with
  | nil => simp [statementsFrom, eq_comm]
  | cons line rest ih =>
    rw [statementsFrom]
    constructor
    · intro h
      split at h
      · simp at h
      · next found hfound =>
        obtain ⟨reading, hreading, rfl⟩ := Statement.ofLine_eq_ok_iff.1 hfound
        obtain ⟨later, hlater, rfl⟩ := map_eq_ok_iff.1 h
        obtain ⟨readings, hreadings, rfl⟩ := ih.1 hlater
        refine ⟨reading :: readings, .cons hreading hreadings, ?_⟩
        cases reading <;> rfl
    · intro h
      rcases h with ⟨readings, hreadings, rfl⟩
      cases hreadings with
      | @cons _ reading _ readings hreading hreadings =>
        rw [Statement.ofLine_of_lineReads number hreading]
        refine map_eq_ok_iff.2 ⟨_, ih.2 ⟨readings, hreadings, rfl⟩, ?_⟩
        cases reading <;> rfl

theorem assemble_eq_ok_iff {source : String} {p : Program} :
    assemble source = .ok p ↔
      ∃ readings, List.Forall₂ LineReads (lines source.toList) readings ∧
        p = readings.reduceOption.map fun c => c.statement.instruction := by
  rw [assemble, map_eq_ok_iff]
  constructor
  · intro h
    rcases h with ⟨statements, hstatements, rfl⟩
    obtain ⟨readings, hreadings, rfl⟩ := statementsFrom_eq_ok_iff.1 hstatements
    exact ⟨readings, hreadings, by rw [List.map_map]; rfl⟩
  · intro h
    rcases h with ⟨readings, hreadings, rfl⟩
    exact ⟨_, statementsFrom_eq_ok_iff.2 ⟨readings, hreadings, rfl⟩, by rw [List.map_map]; rfl⟩

theorem exists_readings_iff {lines : List (List Char)} :
    (∃ readings, List.Forall₂ LineReads lines readings) ↔
      ∀ line ∈ lines, ∃ reading, LineReads line reading := by
  induction lines with
  | nil => simp
  | cons line rest ih =>
    rw [List.forall_mem_cons, ← ih]
    constructor
    · intro h
      rcases h with ⟨_, hreadings⟩
      cases hreadings with
      | cons hreading hrest => exact ⟨⟨_, hreading⟩, ⟨_, hrest⟩⟩
    · rintro ⟨⟨reading, hreading⟩, ⟨readings, hrest⟩⟩
      exact ⟨reading :: readings, .cons hreading hrest⟩

theorem Reads.unique {source : String} {clauses₁ clauses₂ : List Clause}
    (h₁ : Reads source clauses₁) (h₂ : Reads source clauses₂) : clauses₁ = clauses₂ := by
  obtain ⟨lines₁, readings₁, hlines₁, hreadings₁, rfl⟩ := h₁
  obtain ⟨lines₂, readings₂, hlines₂, hreadings₂, rfl⟩ := h₂
  obtain rfl : lines₁ = lines₂ := (lines_of_Lines hlines₁).symm.trans (lines_of_Lines hlines₂)
  have hunique : Relator.RightUnique LineReads := fun _ _ _ h h' => h.unique h'
  rw [hunique.forall₂ hreadings₁ hreadings₂]

/-- **The assembler accepts exactly the grammar.** A source is assembled if and only if each of its
    lines is blank, a comment or a clause, and then to one instruction for each clause, in the order
    of the lines, with the code of its operation and its integer modulo `2 ^ 28`. -/
theorem assemble_iff_grammar (source : String) :
    ∃ lines, (∀ other, Lines source.toList other ↔ other = lines) ∧
      ((∃ p, assemble source = .ok p) ↔ ∀ line ∈ lines, ∃ reading, LineReads line reading) ∧
      ∀ p, assemble source = .ok p ↔
        ∃ readings, List.Forall₂ LineReads lines readings ∧
          List.Forall₂ Clause.Encodes readings.reduceOption p := by
  refine ⟨_, fun other => lines_eq_iff.symm.trans eq_comm, ?_, fun p => ?_⟩
  · rw [← exists_readings_iff]
    constructor
    · rintro ⟨p, hp⟩
      obtain ⟨readings, hreadings, -⟩ := assemble_eq_ok_iff.1 hp
      exact ⟨readings, hreadings⟩
    · rintro ⟨readings, hreadings⟩
      exact ⟨_, assemble_eq_ok_iff.2 ⟨readings, hreadings, rfl⟩⟩
  · simp only [assemble_eq_ok_iff, Clause.forall₂_encodes_iff]

end Source

end Accumulator
