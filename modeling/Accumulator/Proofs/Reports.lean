import Accumulator.Proofs.Gathering
import Accumulator.Proofs.Listing
set_option autoImplicit false

/-! # What reports tell

The cells of a window and the records of a log are written out as block sequences, and both can be
told from their texts. No item has a length that is known beforehand, and none is quoted: what keeps
two items apart is that their lines are closed by newlines and have none inside, so that every text
in which an item stands first tells the item and what follows it (`Delimits`). From the first item
this carries over to all, one after another.

A log in turn tells the program that was assembled, whether or not its operands were shown as they
are encoded. So the text of a log tells the bytecode (`Assembler.program_eq_of_render_log_eq`). -/

namespace Accumulator

namespace Text

/-! ## Items -/

variable {α : Type} {valid : α → Prop} {render : α → String}

/-- A way to write items delimits the valid ones if every text that opens with such an item and a
    newline tells the item and what follows it. -/
def Delimits (valid : α → Prop) (render : α → String) : Prop :=
  ∀ {a b : α} {rest further : List Char}, valid a → valid b →
    (render a).toList ++ '\n' :: rest = (render b).toList ++ '\n' :: further →
      a = b ∧ rest = further

theorem toList_join_sequenceItem_cons (item : String) (items : List String) :
    (String.join ((item :: items).map sequenceItem)).toList =
      '-' :: ' ' :: (item.toList ++ '\n' :: (String.join (items.map sequenceItem)).toList) := by
  simp [sequenceItem]

/-- Items that are delimited can be told from one another in a row. -/
theorem Delimits.eq_of_join_eq (h : Delimits valid render) {xs ys : List α}
    (hxs : ∀ x ∈ xs, valid x) (hys : ∀ y ∈ ys, valid y)
    (heq : String.join ((xs.map render).map sequenceItem) =
      String.join ((ys.map render).map sequenceItem)) : xs = ys := by
  induction xs generalizing ys with
  | nil =>
    cases ys with
    | nil => rfl
    | cons y ys =>
      have htext := congrArg String.toList heq
      rw [List.map_cons, toList_join_sequenceItem_cons] at htext
      simp at htext
  | cons x xs ih =>
    have htext := congrArg String.toList heq
    rw [List.map_cons, toList_join_sequenceItem_cons] at htext
    cases ys with
    | nil => simp at htext
    | cons y ys =>
      rw [List.map_cons, toList_join_sequenceItem_cons, List.cons_inj_right,
        List.cons_inj_right] at htext
      obtain ⟨rfl, hrest⟩ := h (hxs x List.mem_cons_self) (hys y List.mem_cons_self) htext
      rw [ih (fun z hz => hxs z (List.mem_cons_of_mem _ hz))
        (fun z hz => hys z (List.mem_cons_of_mem _ hz)) (String.toList_inj.1 hrest)]

/-- The mark of an empty sequence opens no other. -/
theorem blockSequence_cons_ne (item : String) (items : List String) :
    blockSequence (item :: items) ≠ blockSequence [] := by
  intro h
  have htext := congrArg String.toList h
  rw [blockSequence_cons, toList_join_sequenceItem_cons] at htext
  simp [blockSequence] at htext

/-- A block sequence of delimited items tells the items. -/
theorem Delimits.eq_of_blockSequence_eq (h : Delimits valid render) {xs ys : List α}
    (hxs : ∀ x ∈ xs, valid x) (hys : ∀ y ∈ ys, valid y)
    (heq : blockSequence (xs.map render) = blockSequence (ys.map render)) : xs = ys := by
  cases xs with
  | nil =>
    cases ys with
    | nil => rfl
    | cons y ys => exact absurd heq.symm (blockSequence_cons_ne _ _)
  | cons x xs =>
    cases ys with
    | nil => exact absurd heq (blockSequence_cons_ne _ _)
    | cons y ys => exact h.eq_of_join_eq hxs hys heq

end Text

/-! ## Cells -/

namespace Cell

open Text

theorem newline_not_mem_render (cell : Cell) : '\n' ∉ cell.render.toList :=
  (numeral_repr cell.toInt).isWord.newline_not_mem

/-- No two cells are written alike. -/
theorem eq_of_render_eq {a b : Cell} (h : a.render = b.render) : a = b := by
  have hread := integer?_toList_repr a.toInt
  rw [← render, h, render, integer?_toList_repr, Option.some.injEq] at hread
  exact (Int64.toInt_inj.1 hread).symm

theorem delimits_render : Delimits (fun _ => True) render := by
  intro a b rest further _ _ h
  obtain ⟨htext, rfl⟩ :=
    eq_and_eq_of_append_cons a.newline_not_mem_render b.newline_not_mem_render h
  exact ⟨eq_of_render_eq (String.toList_inj.1 htext), rfl⟩

end Cell

/-! ## Records -/

namespace LogRecord

open Text

/-- A record and a newline are three lines. -/
theorem toList_render_append (r : LogRecord) (rest : List Char) :
    r.render.toList ++ '\n' :: rest =
      "mnemonic: ".toList ++ (r.mnemonic.toList ++ '\n' ::
        ("  opcode: ".toList ++ (r.opcode.toNat.repr.toList ++ '\n' ::
          ("  operand: ".toList ++ (r.operand.render.toList ++ '\n' :: rest))))) := by
  simp [render]

/-- The lines of a record tell its fields, one after another. -/
theorem delimits_render : Delimits (fun r => '\n' ∉ r.mnemonic.toList) render := by
  intro a b rest further ha hb h
  obtain ⟨mnemonic, opcode, operand⟩ := a
  obtain ⟨mnemonic', opcode', operand'⟩ := b
  rw [toList_render_append, toList_render_append] at h
  obtain ⟨hmnemonic, h⟩ := eq_and_eq_of_append_cons ha hb (List.append_cancel_left h)
  obtain ⟨hopcode, h⟩ := eq_and_eq_of_append_cons (digits_repr _).isWord.newline_not_mem
    (digits_repr _).isWord.newline_not_mem (List.append_cancel_left h)
  obtain ⟨hoperand, hrest⟩ := eq_and_eq_of_append_cons operand.newline_not_mem_render
    operand'.newline_not_mem_render (List.append_cancel_left h)
  refine ⟨?_, hrest⟩
  rw [mk.injEq]
  exact ⟨String.toList_inj.1 hmnemonic,
    BitVec.eq_of_toNat_eq (eq_of_repr_eq (String.toList_inj.1 hopcode)),
    Cell.eq_of_render_eq (String.toList_inj.1 hoperand)⟩

/-- A record that is made for an instruction has a mnemonic without newlines. -/
theorem newline_not_mem_mnemonic (i : Instruction) (operand : Cell) :
    '\n' ∉ (ofWritten i operand).mnemonic.toList :=
  (Operation.isWord_mnemonicOfCode _).newline_not_mem

/-- A record that shows an instruction is made for it. -/
theorem Shows.eq_ofWritten {r : LogRecord} {i : Instruction} (h : r.Shows i) :
    r = ofWritten i r.operand := by
  obtain ⟨mnemonic, opcode, operand⟩ := r
  rw [ofWritten, mk.injEq]
  exact ⟨h.mnemonic, h.opcode, rfl⟩

end LogRecord

/-! ## Lists -/

theorem Cell.eq_of_renderList_eq {xs ys : List Cell} (h : renderList xs = renderList ys) :
    xs = ys :=
  delimits_render.eq_of_blockSequence_eq (fun _ _ => trivial) (fun _ _ => trivial) h

theorem Log.eq_of_render_eq {xs ys : List LogRecord}
    (hxs : ∀ r ∈ xs, ∃ i operand, r = LogRecord.ofWritten i operand)
    (hys : ∀ r ∈ ys, ∃ i operand, r = LogRecord.ofWritten i operand)
    (h : render xs = render ys) : xs = ys := by
  refine LogRecord.delimits_render.eq_of_blockSequence_eq ?_ ?_ h
  · intro r hr
    obtain ⟨i, operand, rfl⟩ := hxs r hr
    exact LogRecord.newline_not_mem_mnemonic i operand
  · intro r hr
    obtain ⟨i, operand, rfl⟩ := hys r hr
    exact LogRecord.newline_not_mem_mnemonic i operand

/-! ## Logs of assemblers -/

namespace Assembler

/-- The record of an instruction is one that is made for it. -/
theorem exists_eq_ofWritten {log : List LogRecord} {p : Program}
    (h : List.Forall₂ LogRecord.Shows log p) :
    ∀ r ∈ log, ∃ i operand, r = LogRecord.ofWritten i operand := by
  induction h with
  | nil => simp
  | @cons r i log p hshows _ ih => exact List.forall_mem_cons.2 ⟨⟨i, _, hshows.eq_ofWritten⟩, ih⟩

/-- The text of a log tells the program, whatever sources were gathered. -/
theorem program_eq_of_render_log_eq (sources others : List String)
    (h : Log.render (empty.after sources).log = Log.render (empty.after others).log) :
    (empty.after sources).program = (empty.after others).program := by
  have hsources := (gathered_empty_after sources).log_shows
  have hothers := (gathered_empty_after others).log_shows
  have hlog := Log.eq_of_render_eq (exists_eq_ofWritten hsources) (exists_eq_ofWritten hothers) h
  rw [← map_instruction_of_shows hsources, hlog, map_instruction_of_shows hothers]

end Assembler

/-- **Reports tell what they report.** No two lists of cells have the same text, and no two logs
    have, whatever opcodes and operands were recorded. If two sources are assembled and their logs
    have the same text, their bytecode is the same. -/
theorem reports_injective :
    (∀ xs ys : List Cell, Cell.renderList xs = Cell.renderList ys → xs = ys) ∧
    (∀ xs ys : List LogRecord,
      (∀ r ∈ xs, ∃ i operand, r = LogRecord.ofWritten i operand) →
      (∀ r ∈ ys, ∃ i operand, r = LogRecord.ofWritten i operand) →
      Log.render xs = Log.render ys → xs = ys) ∧
    ∀ (source other : String) (p q : Program),
      Source.assemble source = .ok p → Source.assemble other = .ok q →
      Log.render (Assembler.empty.assemble source).2.log =
          Log.render (Assembler.empty.assemble other).2.log →
        p = q ∧ (Assembler.empty.assemble source).2.binary =
          (Assembler.empty.assemble other).2.binary := by
  refine ⟨fun _ _ => Cell.eq_of_renderList_eq, fun _ _ => Log.eq_of_render_eq, ?_⟩
  intro source other p q hp hq h
  have hprogram : (Assembler.empty.assemble source).2.program =
      (Assembler.empty.assemble other).2.program :=
    Assembler.program_eq_of_render_log_eq [source] [other] h
  refine ⟨?_, congrArg Bytecode.encode hprogram⟩
  rwa [Assembler.program_of_assemble hp, Assembler.program_of_assemble hq] at hprogram

end Accumulator
