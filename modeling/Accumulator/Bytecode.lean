import Accumulator.Error
import Accumulator.Instruction
set_option autoImplicit false

/-! # Bytecode

A program is stored as the words of its instructions, four bytes each, the lowest byte first, with
nothing before, between or after them.

A byte stream is cut into *chunks* of four bytes, and what is left at its end, at most three bytes,
is its *rest*. What becomes of a rest is a choice of the reader's, its `Truncation`: drop it, or
refuse the whole stream before any chunk is decoded. -/

namespace Accumulator

/-- The content of a file or a stream. -/
abbrev Bytes := List UInt8

/-- What to do with a rest that is too short for an instruction. -/
inductive Truncation where
  /-- Drop it. -/
  | silent
  /-- Refuse the stream. -/
  | strict
deriving DecidableEq, Repr

namespace Instruction

/-! ## One instruction -/

/-- A byte of a word, the lowest one being byte zero. -/
def byteOf (w : BitVec 32) (k : Nat) : UInt8 := ⟨w.extractLsb' (8 * k) 8⟩

/-- The four bytes of the instruction's word, the lowest first. -/
def encode (i : Instruction) : Bytes :=
  [byteOf i.word 0, byteOf i.word 1, byteOf i.word 2, byteOf i.word 3]

/-- The instruction whose word has the given bytes, the lowest first. -/
def ofBytes (b₀ b₁ b₂ b₃ : UInt8) : Instruction :=
  ofWord (b₃.toBitVec ++ b₂.toBitVec ++ b₁.toBitVec ++ b₀.toBitVec)

/-- The instruction that a stream opens with, the stream standing at the given offset of a longer
    one; bytes after the first four are not looked at. -/
def decodeAt (offset : Nat) : Bytes → Except Error Instruction
  | b₀ :: b₁ :: b₂ :: b₃ :: _ => .ok (ofBytes b₀ b₁ b₂ b₃)
  | rest => .error (.truncated offset rest.length)

/-- The instruction that a stream opens with. -/
def decode (bytes : Bytes) : Except Error Instruction := decodeAt 0 bytes

@[simp]
theorem length_encode (i : Instruction) : i.encode.length = 4 := rfl

@[simp]
theorem ofBytes_byteOf (w : BitVec 32) :
    ofBytes (byteOf w 0) (byteOf w 1) (byteOf w 2) (byteOf w 3) = ofWord w := by
  simp only [ofBytes, byteOf]
  rw [BitVec.extractLsb'_append_extractLsb'_eq_extractLsb' (by decide),
    BitVec.extractLsb'_append_extractLsb'_eq_extractLsb' (by decide),
    BitVec.extractLsb'_append_extractLsb'_eq_extractLsb' (by decide)]
  exact congrArg ofWord BitVec.extractLsb'_eq_self

@[simp]
theorem decodeAt_encode (offset : Nat) (i : Instruction) : decodeAt offset i.encode = .ok i := by
  simp [encode, decodeAt]

@[simp]
theorem encode_ofBytes (b₀ b₁ b₂ b₃ : UInt8) : (ofBytes b₀ b₁ b₂ b₃).encode = [b₀, b₁, b₂, b₃] := by
  rw [encode, ofBytes, word_ofWord]
  simp only [byteOf, List.cons.injEq, and_true, ← UInt8.toBitVec_inj]
  refine ⟨?_, ?_, ?_, ?_⟩
  · exact BitVec.extractLsb'_append_eq_right
  · rw [BitVec.extractLsb'_append_eq_of_le (by decide)]
    exact BitVec.extractLsb'_append_eq_right
  · rw [BitVec.extractLsb'_append_eq_of_le (by decide),
      BitVec.extractLsb'_append_eq_of_le (by decide)]
    exact BitVec.extractLsb'_append_eq_right
  · rw [BitVec.extractLsb'_append_eq_of_le (by decide),
      BitVec.extractLsb'_append_eq_of_le (by decide),
      BitVec.extractLsb'_append_eq_of_le (by decide)]
    exact BitVec.extractLsb'_eq_self

end Instruction

/-! ## A whole program -/

namespace Bytecode

/-- The bytes of a program. -/
def encode (p : Program) : Bytes := p.flatMap Instruction.encode

/-- The chunks of a stream, each of four bytes. -/
def chunks : Bytes → List Bytes
  | b₀ :: b₁ :: b₂ :: b₃ :: later => [b₀, b₁, b₂, b₃] :: chunks later
  | _ => []

/-- What is left of a stream after its last chunk. -/
def rest : Bytes → Bytes
  | _ :: _ :: _ :: _ :: later => rest later
  | short => short

/-- The instructions of chunks, the first of which stands at the given offset of the stream. -/
def decodeChunks (offset : Nat) : List Bytes → Except Error Program
  | [] => .ok []
  | chunk :: later =>
    match Instruction.decodeAt offset chunk with
    | .error e => .error e
    | .ok i => (decodeChunks (offset + 4) later).map (i :: ·)

/-- The instructions of a stream. -/
def decode (policy : Truncation) (bytes : Bytes) : Except Error Program :=
  if rest bytes ≠ [] ∧ policy = .strict then
    .error (.truncated (bytes.length - (rest bytes).length) (rest bytes).length)
  else decodeChunks 0 (chunks bytes)

theorem encode_cons (i : Instruction) (p : Program) : encode (i :: p) = i.encode ++ encode p := rfl

end Bytecode

end Accumulator
