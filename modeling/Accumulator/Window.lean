import Accumulator.Error
import Accumulator.Text.Blank
import Accumulator.Text.Decimal
set_option autoImplicit false

/-! # Memory windows

A window names the addresses from its start up to, and not including, its end. Both are numbers of
sixty-four bits and neither bounds the other: what a window selects of a given memory is decided by
`clamp`, which cuts the end back to the memory and the start back to the end, and so never fails.

A window is written `start:end`, with no sign and no blank inside. It can be read by cutting the
text at its colons (`Window.ofChars?`), or from the front, each number taking as many digits as
there are (`Window.reader`). -/

namespace Accumulator

/-- The addresses from `start` up to, and not including, `stop`. -/
structure Window where
  start : UInt64
  stop : UInt64
deriving DecidableEq, Repr

namespace Window

/-! ## Selecting from a memory -/

/-- The bounds of what the window selects of a memory with the given number of cells. -/
def clamp (w : Window) (size : Nat) : Nat × Nat :=
  let stop := min w.stop.toNat size
  (min w.start.toNat stop, stop)

theorem clamp_fst_le (w : Window) (size : Nat) : (w.clamp size).1 ≤ (w.clamp size).2 :=
  Nat.min_le_right _ _

theorem clamp_snd_le (w : Window) (size : Nat) : (w.clamp size).2 ≤ size :=
  Nat.min_le_right _ _

/-! ## Text -/

/-- The window as it is written. -/
def render (w : Window) : String :=
  String.join [w.start.toNat.repr, ":", w.stop.toNat.repr]

/-- Reads a window that stands alone. -/
def ofChars? (text : List Char) : Option Window :=
  match text.splitOn ':' with
  | [start, stop] =>
    match Text.word64? start, Text.word64? stop with
    | some s, some e => some ⟨s, e⟩
    | _, _ => none
  | _ => none

/-- Reads an address off the front of a text: all of its digits, if their value fits an address. -/
def address : Text.Reader UInt64 := fun text =>
  match Text.Reader.run Char.isDigit text with
  | none => none
  | some (digits, rest) => (Text.word64? digits).map fun value => (value, rest)

/-- Reads a window off the front of a text: an address, a colon and an address. -/
def reader : Text.Reader Window := fun text =>
  match address text with
  | some (start, ':' :: next) => (address next).map fun (stop, rest) => (⟨start, stop⟩, rest)
  | _ => none

/-- Reads a window, with blanks around it or not. -/
def parse (text : String) : Except Error Window :=
  match ofChars? (Text.trim text.toList) with
  | some w => .ok w
  | none => .error (.badWindow text)

end Window

end Accumulator
