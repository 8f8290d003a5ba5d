import Accumulator.Proofs.Listing
import Accumulator.Proofs.Text.Runs
set_option autoImplicit false

/-! # What is said of a bad line

A line outside the grammar is described by its runs alone. `Diagnosis` gives the three things that
can be wrong with them, and they are looked for in this order: there are not two runs, the first run
is no mnemonic, or, as nothing else is left, the second run is no integer.

A source is refused for its first line outside the grammar, with the diagnosis of that line and its
number (`error_iff_diagnosis`). A line that is read alone is refused in the same way, whatever
number it is given. -/

namespace Accumulator

namespace Source

open Text

/-- The error of a line outside the grammar that has the given runs. -/
inductive Diagnosis (number : Nat) (line : List Char) : List (List Char) → Error → Prop
  /-- There are not two runs. -/
  | count {runs : List (List Char)} : runs.length ≠ 2 →
      Diagnosis number line runs
        (.badStatement number (String.ofList (trim line))
          ("expected a mnemonic and an operand but found " ++ runs.length.repr ++ " tokens"))
  /-- The first run is no mnemonic, whatever the second one is. -/
  | mnemonic {first second : List Char} : (¬ ∃ op : Operation, op.mnemonic.toList = first) →
      Diagnosis number line [first, second] (.unknownMnemonic (some number) (String.ofList first))
  /-- The first run is a mnemonic, so the second one is no integer. -/
  | integer {first second : List Char} : (∃ op : Operation, op.mnemonic.toList = first) →
      Diagnosis number line [first, second]
        (.badStatement number (String.ofList (trim line))
          ("operand `" ++ String.ofList second ++ "` is not an integer"))

/-- The runs leave no choice of what to say. -/
theorem Diagnosis.unique {number : Nat} {line : List Char} {runs : List (List Char)}
    {e₁ e₂ : Error} (h₁ : Diagnosis number line runs e₁) (h₂ : Diagnosis number line runs e₂) :
    e₁ = e₂ := by
  cases h₁ with
  | count htwo =>
    cases h₂ with
    | count => rfl
    | mnemonic => exact absurd rfl htwo
    | integer => exact absurd rfl htwo
  | mnemonic hop =>
    cases h₂ with
    | count htwo => exact absurd rfl htwo
    | mnemonic => rfl
    | integer hop' => exact absurd hop' hop
  | integer hop =>
    cases h₂ with
    | count htwo => exact absurd rfl htwo
    | mnemonic hop' => exact absurd hop hop'
    | integer => rfl

/-! ## The wording -/

theorem wordCount_eq (count : Nat) :
    Error.wordCount count =
      "expected a mnemonic and an operand but found " ++ count.repr ++ " tokens" := by
  simp [Error.wordCount, String.join]

theorem notAnInteger_eq (word : String) :
    Error.notAnInteger word = "operand `" ++ word ++ "` is not an integer" := by
  simp [Error.notAnInteger, String.join]

theorem ne_of_head?_toList {a b : String} (h : a.toList.head? ≠ b.toList.head?) : a ≠ b := by
  rintro rfl
  exact h rfl

/-- No diagnosis is without a line number, and none blames the splitting into words: the reasons
    that are given begin with other letters. -/
theorem Diagnosis.ne {number : Nat} {line : List Char} {runs : List (List Char)} {e : Error}
    (h : Diagnosis number line runs e) :
    (∀ word, e ≠ .unknownMnemonic none word) ∧
      ∀ place text, e ≠ .badStatement place text "could not split line into tokens" := by
  cases h with
  | count =>
    refine ⟨by simp, fun place text heq => ?_⟩
    exact ne_of_head?_toList (by simp) (Error.badStatement.inj heq).2.2
  | mnemonic => simp
  | integer =>
    refine ⟨by simp, fun place text heq => ?_⟩
    exact ne_of_head?_toList (by simp) (Error.badStatement.inj heq).2.2

/-! ## One line -/

theorem map_eq_error_iff {α β : Type} {f : α → β} {x : Except Error α} {e : Error} :
    x.map f = .error e ↔ x = .error e := by
  cases x <;> simp [Except.map]

theorem diagnosis_of_ofWords {number : Nat} {line first second : List Char} {e : Error}
    (h : Statement.ofWords number (trim line) first second = .error e) :
    Diagnosis number line [first, second] e := by
  rw [Statement.ofWords] at h
  split at h
  · next hnone =>
    obtain rfl := Except.error.inj h
    refine .mnemonic ?_
    rintro ⟨op, rfl⟩
    have hsome : Operation.ofMnemonic? (String.ofList op.mnemonic.toList) = some op :=
      Operation.ofMnemonic?_eq_some_iff.2 String.ofList_toList.symm
    rw [hsome] at hnone
    simp at hnone
  · next op hop =>
    rw [Operation.ofMnemonic?_eq_some_iff] at hop
    split at h
    · obtain rfl := Except.error.inj h
      rw [notAnInteger_eq]
      exact .integer ⟨op, by rw [hop, String.toList_ofList]⟩
    · simp at h

/-- A line is only ever refused with the diagnosis of its runs. -/
theorem diagnosis_of_ofLine {number : Nat} {line : List Char} {runs : List (List Char)} {e : Error}
    (hruns : Runs line runs) (h : Statement.ofLine number line = .error e) :
    Diagnosis number line runs e := by
  rw [Statement.ofLine] at h
  split at h
  · simp at h
  · next hidle =>
    rw [(whole_words_trim_iff (Statement.ne_nil_of_not_isIdle hidle)).2 hruns] at h
    split at h
    · next hnone => simp at hnone
    · next first second hwords =>
      obtain rfl := Option.some.inj hwords
      exact diagnosis_of_ofWords (map_eq_error_iff.1 h)
    · next found hnot hwords =>
      obtain rfl := Option.some.inj hwords
      obtain rfl := Except.error.inj h
      rw [wordCount_eq]
      refine .count fun htwo => ?_
      obtain ⟨first, second, rfl⟩ := List.length_eq_two.1 htwo
      exact hnot first second rfl

theorem ofLine_eq_error_iff {number : Nat} {line : List Char} {e : Error} :
    Statement.ofLine number line = .error e ↔
      (¬ ∃ reading, LineReads line reading) ∧
        ∃ runs, (∀ other, Runs line other ↔ other = runs) ∧ Diagnosis number line runs e := by
  constructor
  · intro h
    obtain ⟨runs, hruns⟩ := exists_runs line
    refine ⟨?_, runs, fun other => ⟨fun hother => hother.unique hruns, ?_⟩,
      diagnosis_of_ofLine hruns h⟩
    · rintro ⟨reading, hreading⟩
      rw [Statement.ofLine_of_lineReads number hreading] at h
      simp at h
    · rintro rfl
      exact hruns
  · rintro ⟨hbad, runs, hruns, hdiagnosis⟩
    cases hline : Statement.ofLine number line with
    | ok found =>
      obtain ⟨reading, hreading, -⟩ := Statement.ofLine_eq_ok_iff.1 hline
      exact absurd ⟨reading, hreading⟩ hbad
    | error cause =>
      rw [(diagnosis_of_ofLine ((hruns runs).2 rfl) hline).unique hdiagnosis]

/-! ## A whole source -/

/-- Lines are refused for the first of them that is refused. -/
theorem statementsFrom_eq_error_iff {number : Nat} {lines : List (List Char)} {e : Error} :
    statementsFrom number lines = .error e ↔
      ∃ front line back, lines = front ++ line :: back ∧
        (∀ earlier ∈ front, ∃ reading, LineReads earlier reading) ∧
        Statement.ofLine (number + front.length) line = .error e := by
  constructor
  · intro h
    induction lines generalizing number with
    | nil => simp [statementsFrom] at h
    | cons line rest ih =>
      rw [statementsFrom] at h
      split at h
      · next hline =>
        obtain rfl := Except.error.inj h
        exact ⟨[], line, rest, rfl, by simp, hline⟩
      · next found hfound =>
        obtain ⟨reading, hreading, -⟩ := Statement.ofLine_eq_ok_iff.1 hfound
        obtain ⟨front, bad, back, rfl, hfront, hbad⟩ := ih (map_eq_error_iff.1 h)
        refine ⟨line :: front, bad, back, rfl,
          List.forall_mem_cons.2 ⟨⟨reading, hreading⟩, hfront⟩, ?_⟩
        rw [List.length_cons, Nat.add_comm front.length, ← Nat.add_assoc]
        exact hbad
  · rintro ⟨front, line, back, rfl, hfront, hline⟩
    obtain ⟨readings, hreadings⟩ := exists_readings_iff.2 hfront
    rw [statementsFrom_append, statementsFrom_eq_ok_iff.2 ⟨readings, hreadings, rfl⟩]
    simp only [statementsFrom, hline]
    rfl

theorem assemble_eq_error_iff {source : String} {e : Error} :
    assemble source = .error e ↔
      ∃ front line back, Lines source.toList (front ++ line :: back) ∧
        (∀ earlier ∈ front, ∃ reading, LineReads earlier reading) ∧
        (¬ ∃ reading, LineReads line reading) ∧
        ∃ runs, (∀ other, Runs line other ↔ other = runs) ∧
          Diagnosis (front.length + 1) line runs e := by
  rw [assemble, map_eq_error_iff, statements, statementsFrom_eq_error_iff]
  simp only [ofLine_eq_error_iff, lines_eq_iff, Nat.add_comm 1]

theorem assembleLine_eq_error_iff {number : Nat} {text : String} {e : Error} :
    assembleLine number text = .error e ↔
      (¬ ∃ reading, LineReads text.toList reading) ∧
        ∃ runs, (∀ other, Runs text.toList other ↔ other = runs) ∧
          Diagnosis number text.toList runs e := by
  rw [assembleLine, map_eq_error_iff, ofLine_eq_error_iff]

/-- **A source is refused for its first line outside the grammar, with the diagnosis of that
    line.** So is a line that is read alone. Neither is refused without a line number, or because a
    line could not be split into words. -/
theorem error_iff_diagnosis :
    (∀ (source : String) (e : Error), assemble source = .error e ↔
      ∃ front line back, Lines source.toList (front ++ line :: back) ∧
        (∀ earlier ∈ front, ∃ reading, LineReads earlier reading) ∧
        (¬ ∃ reading, LineReads line reading) ∧
        ∃ runs, (∀ other, Runs line other ↔ other = runs) ∧
          Diagnosis (front.length + 1) line runs e) ∧
    (∀ (number : Nat) (text : String) (e : Error), assembleLine number text = .error e ↔
      (¬ ∃ reading, LineReads text.toList reading) ∧
        ∃ runs, (∀ other, Runs text.toList other ↔ other = runs) ∧
          Diagnosis number text.toList runs e) ∧
    ∀ (text : String) (e : Error),
      assemble text = .error e ∨ (∃ number, assembleLine number text = .error e) →
        (∀ word, e ≠ .unknownMnemonic none word) ∧
          ∀ place body, e ≠ .badStatement place body "could not split line into tokens" := by
  refine ⟨fun _ _ => assemble_eq_error_iff, fun _ _ _ => assembleLine_eq_error_iff, ?_⟩
  rintro text e (h | ⟨number, h⟩)
  · obtain ⟨_, _, _, _, _, _, _, _, hdiagnosis⟩ := assemble_eq_error_iff.1 h
    exact hdiagnosis.ne
  · obtain ⟨_, _, _, hdiagnosis⟩ := assembleLine_eq_error_iff.1 h
    exact hdiagnosis.ne

end Source

end Accumulator
