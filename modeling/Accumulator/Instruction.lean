import Accumulator.Operation
set_option autoImplicit false

/-! # Instructions

An instruction is an opcode of four bits and an operand of twenty-eight. Every pair of such numbers
is an instruction; whether the opcode is the code of an operation is asked of it afterwards
(`operation?`), so that a program with an unknown opcode can be decoded, listed and encoded again.

Packed together the two fields make one *word* of thirty-two bits, the opcode in the low four. -/

namespace Accumulator

/-- An opcode and an operand, as wide as their fields in the encoding. -/
structure Instruction where
  opcode : BitVec 4
  operand : BitVec 28
deriving DecidableEq, Repr

/-- A program runs front to back. -/
abbrev Program := List Instruction

namespace Instruction

/-! ## Making an instruction -/

/-- The instruction that keeps the low four bits of one number and the low twenty-eight of the
    other. -/
def ofFields (opcode operand : Nat) : Instruction :=
  ⟨BitVec.ofNat 4 opcode, BitVec.ofNat 28 operand⟩

/-- The instruction that asks for an operation. -/
def ofOperation (op : Operation) (operand : BitVec 28) : Instruction :=
  ⟨BitVec.ofNat 4 op.code, operand⟩

/-! ## Reading its fields -/

/-- The operation that the opcode is the code of. -/
def operation? (i : Instruction) : Option Operation := Operation.ofCode? i.opcode.toNat

/-- The operand as a memory address. -/
def address (i : Instruction) : Nat := i.operand.toNat

/-- The mnemonic of the opcode, known or unknown. -/
def mnemonic (i : Instruction) : String := Operation.mnemonicOfCode i.opcode.toNat

/-- The instruction as assembly source writes it. -/
def render (i : Instruction) : String := String.join [i.mnemonic, " ", i.address.repr]

theorem operation?_eq_some_iff {i : Instruction} {op : Operation} :
    i.operation? = some op ↔ i.opcode = BitVec.ofNat 4 op.code := by
  rw [operation?, Operation.ofCode?_eq_some_iff, ← BitVec.toNat_inj, BitVec.toNat_ofNat,
    Nat.mod_eq_of_lt op.code_lt]
  exact eq_comm

@[simp]
theorem operation?_ofOperation (op : Operation) (operand : BitVec 28) :
    (ofOperation op operand).operation? = some op :=
  operation?_eq_some_iff.2 rfl

@[simp]
theorem address_ofOperation (op : Operation) (operand : BitVec 28) :
    (ofOperation op operand).address = operand.toNat := rfl

/-! ## The word of an instruction -/

/-- Both fields side by side, the opcode in the low four bits. -/
def word (i : Instruction) : BitVec 32 := i.operand ++ i.opcode

/-- The instruction in a word. -/
def ofWord (w : BitVec 32) : Instruction := ⟨w.extractLsb' 0 4, w.extractLsb' 4 28⟩

@[simp]
theorem ofWord_word (i : Instruction) : ofWord i.word = i := by
  obtain ⟨opcode, operand⟩ := i
  simp only [ofWord, word, mk.injEq]
  exact ⟨BitVec.extractLsb'_append_eq_right, BitVec.extractLsb'_append_eq_left⟩

@[simp]
theorem word_ofWord (w : BitVec 32) : (ofWord w).word = w :=
  BitVec.extractLsb'_append_extractLsb'

end Instruction

end Accumulator
