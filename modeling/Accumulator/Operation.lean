set_option autoImplicit false

/-! # Operations

The machine knows four operations. Each one has a *code*, the number that an instruction carries in
its opcode field, and a *mnemonic*, the word that assembly source writes for it.

Codes and mnemonics are told apart exactly: no two operations share one, a mnemonic is written in
lower case and in full, and a code is looked up as the number it is, so that a number which only
agrees with a code in its low four bits names no operation (`ofCode?_eq_some_iff`,
`ofMnemonic?_eq_some_iff`). -/

namespace Accumulator

/-- What an instruction may ask of the machine. -/
inductive Operation where
  /-- Put the operand itself into the accumulator. -/
  | loadConstant
  /-- Compare the accumulator with a memory cell. -/
  | equal
  /-- Write the accumulator to a memory cell. -/
  | store
  /-- Copy a memory cell into the accumulator. -/
  | loadMemory
deriving DecidableEq, Repr

namespace Operation

/-! ## The two names of an operation -/

/-- All operations, in increasing order of their codes. -/
def all : List Operation := [.loadConstant, .equal, .store, .loadMemory]

/-- The number that stands for the operation in an opcode field. -/
def code : Operation → Nat
  | .loadConstant => 2
  | .equal => 7
  | .store => 11
  | .loadMemory => 12

/-- The word that stands for the operation in assembly source. -/
def mnemonic : Operation → String
  | .loadConstant => "ldc"
  | .equal => "eq"
  | .store => "st"
  | .loadMemory => "ldr"

/-- A code fits the four bits of an opcode field. -/
theorem code_lt (op : Operation) : op.code < 16 := by
  cases op <;> decide

theorem mnemonic_injective {a b : Operation} (h : a.mnemonic = b.mnemonic) : a = b := by
  revert h
  cases a <;> cases b <;> decide

/-! ## Looking an operation up -/

/-- The operation of a code. -/
def ofCode? (n : Nat) : Option Operation := all.find? (·.code == n)

/-- The operation of a mnemonic. -/
def ofMnemonic? (word : String) : Option Operation := all.find? (·.mnemonic == word)

theorem ofCode?_eq_some_iff {n : Nat} {op : Operation} : ofCode? n = some op ↔ op.code = n := by
  constructor
  · intro h
    simpa using List.find?_some h
  · rintro rfl
    cases op <;> rfl

theorem ofMnemonic?_eq_some_iff {word : String} {op : Operation} :
    ofMnemonic? word = some op ↔ op.mnemonic = word := by
  constructor
  · intro h
    simpa using List.find?_some h
  · rintro rfl
    cases op <;> decide

/-- The text that stands for a number in an opcode field: a mnemonic, or the number itself, marked
    as unknown. -/
def mnemonicOfCode (n : Nat) : String :=
  match ofCode? n with
  | some op => op.mnemonic
  | none => String.join ["unknown(", n.repr, ")"]

@[simp]
theorem mnemonicOfCode_code (op : Operation) : mnemonicOfCode op.code = op.mnemonic := by
  rw [mnemonicOfCode, ofCode?_eq_some_iff.2 rfl]

/-- Why a look-up among the operations found none. -/
inductive Missing where
  /-- The word is no mnemonic. -/
  | word
  /-- The number is no code. -/
  | code (n : Nat)
deriving DecidableEq, Repr

/-- The wording of a failed look-up. -/
def Missing.message : Missing → String
  | .word => "Matching variant not found"
  | .code n =>
    String.join ["No discriminant in enum `Operation` matches the value `", n.repr, "`"]

/-- The operation of a mnemonic, or the reason why there is none. -/
def ofMnemonic (word : String) : Except Missing Operation :=
  match ofMnemonic? word with
  | some op => .ok op
  | none => .error .word

/-- The operation of a code, or the reason why there is none. -/
def ofCode (n : Nat) : Except Missing Operation :=
  match ofCode? n with
  | some op => .ok op
  | none => .error (.code n)

end Operation

end Accumulator
