import Accumulator.Operand
import Accumulator.Proofs.Text.Words
import Mathlib.Data.List.Induction
set_option autoImplicit false

/-! # Numerals and the operands they stand for

`Digits` and `Numeral` say what a decimal numeral is and which number it writes, one digit at a time
from the left. The readers accept these texts and no others, and find that number.

The word of an operand is gathered in wrapping arithmetic, which agrees with the arithmetic of the
integers modulo `2 ^ 32` at every digit, however many digits there are, and at the sign. So the word
of a numeral depends on its value alone (`wordOf_eq_ofInt`). -/

namespace Accumulator

namespace Text

/-- A text of one ASCII digit or more, and its value. -/
inductive Digits : List Char → Nat → Prop
  | one {c : Char} : c.isDigit = true → Digits [c] (c.toNat - 48)
  | snoc {digits : List Char} {n : Nat} {c : Char} :
      Digits digits n → c.isDigit = true → Digits (digits ++ [c]) (10 * n + (c.toNat - 48))

/-- A text of digits with at most one sign in front, and its value. -/
inductive Numeral : List Char → Int → Prop
  | unsigned {digits : List Char} {n : Nat} : Digits digits n → Numeral digits n
  | plus {digits : List Char} {n : Nat} : Digits digits n → Numeral ('+' :: digits) n
  | minus {digits : List Char} {n : Nat} : Digits digits n → Numeral ('-' :: digits) (-n)

/-! ## Natural numerals -/

theorem Digits.ne_nil {digits : List Char} {n : Nat} (h : Digits digits n) : digits ≠ [] := by
  cases h <;> simp

theorem Digits.isDigit {digits : List Char} {n : Nat} (h : Digits digits n) :
    ∀ c ∈ digits, c.isDigit = true := by
  induction h with
  | one hc => simpa using hc
  | snoc _ hc ih =>
    intro d hd
    rcases List.mem_append.1 hd with hd | hd
    · exact ih d hd
    · rw [List.mem_singleton.1 hd]
      exact hc

theorem Digits.naturalValue_eq {digits : List Char} {n : Nat} (h : Digits digits n) :
    naturalValue digits = n := by
  induction h with
  | one hc => simp [naturalValue, Nat.ofDigitChars_cons]
  | @snoc digits n c _ hc ih =>
    rw [naturalValue, Nat.ofDigitChars_append]
    rw [naturalValue] at ih
    rw [ih]
    simp [Nat.ofDigitChars_cons]

theorem exists_digits {text : List Char} (hne : text ≠ [])
    (hdigit : ∀ c ∈ text, c.isDigit = true) : ∃ n, Digits text n := by
  -- digits are gathered from the left, so the last one is taken off first
  induction text using List.reverseRecOn with
  | nil => exact absurd rfl hne
  | append_singleton digits c ih =>
    have hc : c.isDigit = true := hdigit c (by simp)
    by_cases hempty : digits = []
    · subst hempty
      exact ⟨_, .one hc⟩
    · obtain ⟨n, hn⟩ := ih hempty fun d hd => hdigit d (List.mem_append_left _ hd)
      exact ⟨_, .snoc hn hc⟩

theorem isNatural_iff {text : List Char} :
    isNatural text = true ↔ text ≠ [] ∧ ∀ c ∈ text, c.isDigit = true := by
  simp [isNatural]

theorem natural?_eq_some_iff {text : List Char} {n : Nat} :
    natural? text = some n ↔ Digits text n := by
  rw [natural?, Option.ite_none_right_eq_some, Option.some.injEq, isNatural_iff]
  constructor
  · intro h
    rcases h with ⟨⟨hne, hdigit⟩, rfl⟩
    obtain ⟨n, hn⟩ := exists_digits hne hdigit
    rwa [hn.naturalValue_eq]
  · intro h
    exact ⟨⟨h.ne_nil, h.isDigit⟩, h.naturalValue_eq⟩

/-- A natural number is printed as a numeral. -/
theorem digits_repr (n : Nat) : Digits n.repr.toList n :=
  natural?_eq_some_iff.1 (natural?_toList_repr n)

/-! ## Integer numerals -/

theorem Digits.not_mem {digits : List Char} {n : Nat} (h : Digits digits n) {c : Char}
    (hc : c.isDigit = false) : c ∉ digits := by
  intro hmem
  rw [h.isDigit c hmem] at hc
  exact absurd hc (by decide)

theorem Digits.head?_ne {digits : List Char} {n : Nat} (h : Digits digits n) {c : Char}
    (hc : c.isDigit = false) : digits.head? ≠ some c :=
  fun hhead => h.not_mem hc (List.mem_of_mem_head? hhead)

theorem integer?_of_head?_ne {text : List Char} (hplus : text.head? ≠ some '+')
    (hminus : text.head? ≠ some '-') : integer? text = (natural? text).map Int.ofNat := by
  cases text with
  | nil => rfl
  | cons c digits =>
    rw [integer?]
    · intro digits heq
      exact hplus (by rw [heq]; rfl)
    · intro digits heq
      exact hminus (by rw [heq]; rfl)

/-- Integer numerals are read, and nothing else is. -/
theorem integer?_eq_some_iff {text : List Char} {value : Int} :
    integer? text = some value ↔ Numeral text value := by
  constructor
  · intro h
    unfold integer? at h
    split at h
    · obtain ⟨n, hn, rfl⟩ := Option.map_eq_some_iff.1 h
      exact .plus (natural?_eq_some_iff.1 hn)
    · obtain ⟨n, hn, rfl⟩ := Option.map_eq_some_iff.1 h
      exact .minus (natural?_eq_some_iff.1 hn)
    · obtain ⟨n, hn, rfl⟩ := Option.map_eq_some_iff.1 h
      exact .unsigned (natural?_eq_some_iff.1 hn)
  · intro h
    cases h with
    | unsigned hdigits =>
      rw [integer?_of_head?_ne (hdigits.head?_ne (by decide)) (hdigits.head?_ne (by decide)),
        natural?_eq_some_iff.2 hdigits]
      rfl
    | plus hdigits =>
      rw [integer?, natural?_eq_some_iff.2 hdigits]
      rfl
    | minus hdigits =>
      rw [integer?, natural?_eq_some_iff.2 hdigits]
      rfl

/-- An integer is printed as a numeral. -/
theorem numeral_repr (value : Int) : Numeral value.repr.toList value := by
  cases value with
  | ofNat n => exact .unsigned (digits_repr n)
  | negSucc n =>
    rw [Int.repr, String.toList_append]
    exact .minus (digits_repr (n + 1))

/-- Reading inverts printing. -/
theorem integer?_toList_repr (value : Int) : integer? value.repr.toList = some value :=
  integer?_eq_some_iff.2 (numeral_repr value)

/-! ## Numerals are words -/

theorem isBlank_of_isDigit {c : Char} (h : c.isDigit = true) : isBlank c = false := by
  have hrange : 48 ≤ c.toNat ∧ c.toNat ≤ 57 := by
    simpa [Char.isDigit, UInt32.le_iff_toNat_le] using h
  simp only [isBlank, blankRanges, List.any_cons, List.any_nil, Bool.or_false,
    Bool.or_eq_false_iff, Bool.and_eq_false_iff, decide_eq_false_iff_not]
  omega

theorem Digits.isWord {digits : List Char} {n : Nat} (h : Digits digits n) : IsWord digits :=
  ⟨h.ne_nil, fun c hc => isBlank_of_isDigit (h.isDigit c hc)⟩

theorem Numeral.isWord {numeral : List Char} {value : Int} (h : Numeral numeral value) :
    IsWord numeral := by
  cases h with
  | unsigned hdigits => exact hdigits.isWord
  | plus hdigits =>
    refine ⟨by simp, fun c hc => ?_⟩
    rcases List.mem_cons.1 hc with rfl | hc
    · decide
    · exact hdigits.isWord.2 c hc
  | minus hdigits =>
    refine ⟨by simp, fun c hc => ?_⟩
    rcases List.mem_cons.1 hc with rfl | hc
    · decide
    · exact hdigits.isWord.2 c hc

theorem Numeral.not_mem {numeral : List Char} {value : Int} (h : Numeral numeral value) {c : Char}
    (hc : c.isDigit = false) (hplus : c ≠ '+') (hminus : c ≠ '-') : c ∉ numeral := by
  rcases h with hdigits | hdigits | hdigits
  · exact hdigits.not_mem hc
  · exact List.not_mem_cons_of_ne_of_not_mem hplus (hdigits.not_mem hc)
  · exact List.not_mem_cons_of_ne_of_not_mem hminus (hdigits.not_mem hc)

end Text

/-! ## The word of an operand -/

namespace Operand

open Text

theorem wordOfDigits_append (front : List Nat) (digit : Nat) :
    wordOfDigits (front ++ [digit]) = wordOfDigits front * 10 + UInt32.ofNat digit := by
  rw [wordOfDigits, List.foldl_append]
  rfl

theorem digit?_of_isDigit {c : Char} (h : c.isDigit = true) : digit? c = some (c.toNat - 48) :=
  if_pos h

theorem filterMap_digit?_cons_of_not_isDigit {c : Char} (hc : c.isDigit = false)
    (text : List Char) : (c :: text).filterMap digit? = text.filterMap digit? :=
  List.filterMap_cons_none (by simp [digit?, hc])

theorem wordOfDigits_of_digits {digits : List Char} {n : Nat} (h : Digits digits n) :
    wordOfDigits (digits.filterMap digit?) = UInt32.ofNat n := by
  induction h with
  | one hc =>
    rw [List.filterMap_cons_some (digit?_of_isDigit hc)]
    simp [wordOfDigits]
  | snoc _ hc ih =>
    rw [List.filterMap_append, List.filterMap_cons_some (digit?_of_isDigit hc),
      List.filterMap_nil, wordOfDigits_append, ih, UInt32.ofNat_add, UInt32.ofNat_mul]
    exact congrArg (· + _) (UInt32.mul_comm ..)

theorem ofInt_natCast (n : Nat) : UInt32.ofInt n = UInt32.ofNat n := by
  rw [UInt32.ofInt, ← UInt32.toNat_inj, UInt32.toNat_ofNat', UInt32.toNat_ofNat']
  omega

/-- The word of a numeral is its value modulo `2 ^ 32`. -/
theorem wordOf_eq_ofInt {text : List Char} {value : Int} (h : Numeral text value) :
    wordOf text = UInt32.ofInt value := by
  cases h with
  | unsigned hdigits =>
    rw [wordOf, wordOfDigits_of_digits hdigits, if_neg (hdigits.head?_ne (by decide)),
      ofInt_natCast]
  | plus hdigits =>
    rw [wordOf, filterMap_digit?_cons_of_not_isDigit (by decide), wordOfDigits_of_digits hdigits,
      if_neg (by simp), ofInt_natCast]
  | minus hdigits =>
    rw [wordOf, filterMap_digit?_cons_of_not_isDigit (by decide), wordOfDigits_of_digits hdigits,
      if_pos (by simp), UInt32.ofInt_neg, ofInt_natCast]

theorem ofChars?_eq_some_iff {text : List Char} {operand : Operand} :
    ofChars? text = some operand ↔
      ∃ value, Numeral text value ∧ operand = ⟨UInt32.ofInt value, Cell.ofInt? value⟩ := by
  rw [ofChars?, Option.map_eq_some_iff]
  constructor
  · intro h
    rcases h with ⟨value, hvalue, rfl⟩
    have hnumeral := integer?_eq_some_iff.1 hvalue
    exact ⟨value, hnumeral, by rw [wordOf_eq_ofInt hnumeral]⟩
  · intro h
    rcases h with ⟨value, hnumeral, rfl⟩
    exact ⟨value, integer?_eq_some_iff.2 hnumeral, by rw [wordOf_eq_ofInt hnumeral]⟩

end Operand

end Accumulator
