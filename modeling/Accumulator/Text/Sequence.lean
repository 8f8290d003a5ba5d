set_option autoImplicit false

/-! # Block sequences

A sequence is written one item after the other, each opened by a dash and a blank and closed by a
newline; the sequence without items is written `[]`. An item may take several lines, of which it
indents all but the first itself. -/

namespace Accumulator.Text

/-- An item of a block sequence. -/
def sequenceItem (item : String) : String := String.join ["- ", item, "\n"]

/-- The block sequence of the given items. -/
def blockSequence : List String → String
  | [] => "[]\n"
  | items => String.join (items.map sequenceItem)

theorem blockSequence_cons (item : String) (items : List String) :
    blockSequence (item :: items) = String.join ((item :: items).map sequenceItem) := rfl

end Accumulator.Text
