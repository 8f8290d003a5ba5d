set_option autoImplicit false

/-! # Errors

One type holds every reason to refuse an input, from a source line to a file that cannot be
written, because the file jobs and the command line pass all of them on. A constructor is a cause
with the numbers and texts that describe it; the wording is given once, by `Error.message`.

Addresses, sizes and positions count from zero, source lines from one. The position of a machine
error is the number of instructions that the machine had completed. -/

namespace Accumulator

/-- Why a file could not be read or written. -/
inductive FileError where
  /-- A name on the path does not exist. -/
  | notFound
  /-- The path goes on below a file. -/
  | notADirectory
  /-- The path leads to a directory where a file is needed. -/
  | isADirectory
  /-- The file is to be read as text, and its bytes are not UTF-8. -/
  | notText
  /-- Any other cause, in the words of the system that has it. -/
  | other (wording : String)
deriving DecidableEq, Repr

/-- The wording of a file error. -/
def FileError.message : FileError → String
  | .notFound => "No such file or directory (os error 2)"
  | .notADirectory => "Not a directory (os error 20)"
  | .isADirectory => "Is a directory (os error 21)"
  | .notText => "stream did not contain valid UTF-8"
  | .other wording => wording

/-- Why an input was refused. -/
inductive Error where
  /-- A source line is not a mnemonic and an integer. -/
  | badStatement (line : Nat) (text reason : String)
  /-- A word stands where a mnemonic is needed; the line is given if it was read from a source. -/
  | unknownMnemonic (line : Option Nat) (word : String)
  /-- A byte stream has a rest that is too short for an instruction. -/
  | truncated (offset length : Nat)
  /-- An opcode is the code of no operation. -/
  | unknownOpcode (opcode position : Nat)
  /-- An address is not below the size of the memory. -/
  | outOfBounds (address size position : Nat)
  /-- A text is not a memory window. -/
  | badWindow (text : String)
  /-- A file could not be read or written. -/
  | file (cause : FileError)
  /-- A machine of this size cannot be set up. -/
  | capacityOverflow
deriving DecidableEq, Repr

namespace Error

/-- The wording of an error. -/
def message : Error → String
  | .badStatement line text reason =>
    String.join ["syntax error on line ", line.repr, ": ", reason, ": `", text, "`"]
  | .unknownMnemonic (some line) word =>
    String.join ["unknown mnemonic `", word, "` on line ", line.repr]
  | .unknownMnemonic none word => String.join ["unknown mnemonic `", word, "`"]
  | .truncated offset length =>
    String.join ["malformed input at byte ", offset.repr, ": expected 4 bytes, found ", length.repr]
  | .unknownOpcode opcode position =>
    String.join ["unknown instruction: opcode ", opcode.repr, " at position ", position.repr]
  | .outOfBounds address size position =>
    String.join ["index fault: address ", address.repr, " is outside memory of size ", size.repr,
      " (position ", position.repr, ")"]
  | .badWindow text => String.join ["invalid memory range `", text, "`: expected `start:end`"]
  | .file cause => cause.message
  | .capacityOverflow => "capacity overflow"

/-- The reason given for a line that is no list of words. -/
def noWords : String := "could not split line into tokens"

/-- The reason given for a line that has too few or too many words. -/
def wordCount (count : Nat) : String :=
  String.join ["expected a mnemonic and an operand but found ", count.repr, " tokens"]

/-- The reason given for a second word that is no integer. -/
def notAnInteger (word : String) : String :=
  String.join ["operand `", word, "` is not an integer"]

end Error

end Accumulator
