set_option autoImplicit false

/-! # Decimal numerals

Numbers are written with the ASCII digits `0` to `9` alone. A *natural* numeral is one digit or
more, leading zeros allowed; an *integer* numeral may have one sign, `+` or `-`, in front. Neither
kind has a largest value: a reader that wants one compares the value that it gets.

Numbers are printed without a sign `+` and without leading zeros, and reading inverts printing
(`natural?_toList_repr`). -/

namespace Accumulator.Text

/-! ## Natural numerals -/

/-- The value of an ASCII digit. -/
def digit? (c : Char) : Option Nat := if c.isDigit then some (c.toNat - 48) else none

/-- Whether a text is one ASCII digit or more. -/
def isNatural (text : List Char) : Bool := !text.isEmpty && text.all Char.isDigit

/-- The value of a text of digits, the first digit the highest. -/
def naturalValue (digits : List Char) : Nat := Nat.ofDigitChars 10 digits 0

/-- Reads a natural numeral. -/
def natural? (text : List Char) : Option Nat :=
  if isNatural text then some (naturalValue text) else none

/-- Reads a natural numeral whose value fits 64 bits. -/
def word64? (text : List Char) : Option UInt64 :=
  (natural? text).bind fun n => if n < 0x10000000000000000 then some (UInt64.ofNat n) else none

theorem isNatural_toDigits (n : Nat) : isNatural (Nat.toDigits 10 n) = true := by
  simp only [isNatural, Bool.and_eq_true, Bool.not_eq_true', List.isEmpty_eq_false_iff]
  exact ⟨Nat.toDigits_ne_nil,
    List.all_eq_true.2 fun _ h => Nat.isDigit_of_mem_toDigits (by omega) (by omega) h⟩

/-- Reading inverts printing. -/
theorem natural?_toList_repr (n : Nat) : natural? n.repr.toList = some n := by
  rw [Nat.toList_repr, natural?, if_pos (isNatural_toDigits n), naturalValue,
    Nat.ofDigitChars_ten_toDigits]

/-- No two numbers are printed alike. -/
theorem eq_of_repr_eq {a b : Nat} (h : a.repr = b.repr) : a = b := by
  have hread := natural?_toList_repr a
  rw [h, natural?_toList_repr b] at hread
  exact (Option.some.inj hread).symm

/-- A numeral of 64 bits is a natural numeral of a value below `2 ^ 64`. -/
theorem word64?_eq_some_iff {text : List Char} {w : UInt64} :
    word64? text = some w ↔ natural? text = some w.toNat := by
  unfold word64?
  cases h : natural? text with
  | none => simp
  | some n =>
    simp only [Option.bind_some, Option.some.injEq, Option.ite_none_right_eq_some]
    constructor
    · rintro ⟨hlt, rfl⟩
      rw [UInt64.toNat_ofNat_of_lt' hlt]
    · rintro rfl
      exact ⟨w.toNat_lt, UInt64.ofNat_toNat⟩

/-! ## Integer numerals -/

/-- Reads an integer numeral of any size. -/
def integer? : List Char → Option Int
  | '+' :: digits => (natural? digits).map Int.ofNat
  | '-' :: digits => (natural? digits).map fun n : Nat => -(n : Int)
  | digits => (natural? digits).map Int.ofNat

end Accumulator.Text
