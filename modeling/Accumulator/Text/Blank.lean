import Accumulator.Text.Reader
set_option autoImplicit false

/-! # Blank characters, trimming and words

A character is *blank* when it has the Unicode property `White_Space`. Assembly lines and memory
windows are read modulo blanks: both ends of the text are trimmed, and a line is read as a list of
*words*, runs of characters that are not blank, with runs of blanks between them.

The functions work on lists of characters. The two laws that the readers rest on are stated here:
trimming takes away blanks only (`exists_eq_append_trim`) and leaves none at either end
(`head?_trim_not_blank`, `getLast?_trim_not_blank`). -/

namespace Accumulator.Text

/-! ## The property `White_Space` -/

/-- The ranges of code points with the property `White_Space`, in increasing order, both ends
    included. -/
def blankRanges : List (Nat × Nat) :=
  [(0x09, 0x0D), (0x20, 0x20), (0x85, 0x85), (0xA0, 0xA0), (0x1680, 0x1680), (0x2000, 0x200A),
   (0x2028, 0x2029), (0x202F, 0x202F), (0x205F, 0x205F), (0x3000, 0x3000)]

/-- Whether a character has the property `White_Space`. -/
def isBlank (c : Char) : Bool :=
  blankRanges.any fun range => range.1 ≤ c.toNat && c.toNat ≤ range.2

/-- The property has twenty-five members. -/
example :
    (blankRanges.flatMap fun range => List.range' range.1 (range.2 + 1 - range.1)).length = 25 :=
  rfl

/-! ## Trimming -/

/-- The text without the blanks it opens with. -/
def trimStart (text : List Char) : List Char := text.dropWhile isBlank

/-- The text without the blanks it ends with. -/
def trimEnd (text : List Char) : List Char := (text.reverse.dropWhile isBlank).reverse

/-- The text without the blanks at its two ends. -/
def trim (text : List Char) : List Char := trimEnd (trimStart text)

theorem exists_eq_append_trimStart (text : List Char) :
    ∃ front, (∀ c ∈ front, isBlank c = true) ∧ text = front ++ trimStart text :=
  ⟨text.takeWhile isBlank, List.all_eq_true.1 List.all_takeWhile,
    List.takeWhile_append_dropWhile.symm⟩

theorem exists_eq_append_trimEnd (text : List Char) :
    ∃ back, (∀ c ∈ back, isBlank c = true) ∧ text = trimEnd text ++ back := by
  obtain ⟨front, hfront, heq⟩ := exists_eq_append_trimStart text.reverse
  refine ⟨front.reverse, fun c hc => hfront c (List.mem_reverse.1 hc), ?_⟩
  have := congrArg List.reverse heq
  rwa [List.reverse_reverse, List.reverse_append] at this

/-- Trimming takes away blanks and nothing else. -/
theorem exists_eq_append_trim (text : List Char) :
    ∃ front back, (∀ c ∈ front, isBlank c = true) ∧ (∀ c ∈ back, isBlank c = true) ∧
      text = front ++ trim text ++ back := by
  obtain ⟨front, hfront, h₁⟩ := exists_eq_append_trimStart text
  obtain ⟨back, hback, h₂⟩ := exists_eq_append_trimEnd (trimStart text)
  refine ⟨front, back, hfront, hback, ?_⟩
  rw [List.append_assoc, trim, ← h₂, ← h₁]

/-- A trimmed text does not end in a blank. -/
theorem getLast?_trim_not_blank (text : List Char) (c : Char)
    (h : (trim text).getLast? = some c) : isBlank c = false := by
  rw [trim, trimEnd, List.getLast?_reverse] at h
  have := List.head?_dropWhile_not isBlank (trimStart text).reverse
  rw [h] at this
  simpa using this

/-- A trimmed text does not open with a blank. -/
theorem head?_trim_not_blank (text : List Char) (c : Char)
    (h : (trim text).head? = some c) : isBlank c = false := by
  obtain ⟨back, -, heq⟩ := exists_eq_append_trimEnd (trimStart text)
  have hstart : (trimStart text).head? = some c := by
    rw [heq, List.head?_append]
    rw [trim] at h
    rw [h]; rfl
  have := List.head?_dropWhile_not isBlank text
  rw [trimStart] at hstart
  rw [hstart] at this
  simpa using this

/-! ## Words -/

/-- Reads a run of blanks. -/
def gap : Reader (List Char) := .run isBlank

/-- Reads a run of characters that are not blank. -/
def word : Reader (List Char) := .run fun c => !isBlank c

/-- Reads words, with a gap between any two. -/
def words : Reader (List (List Char)) := .list gap word

end Accumulator.Text
