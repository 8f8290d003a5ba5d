import Accumulator.Machine.Basic
import Accumulator.Proofs.Numerals
import Mathlib.Algebra.Group.Nat.Defs
set_option autoImplicit false

/-! # Windows, in writing and in use

A window is written as two numerals with a colon between them, and blanks may stand around it
(`Written`). These are the texts that are read as windows, provided that both numbers fit sixty-four
bits, and every other text is refused (`reads_written`). Cutting a text at its colons and reading it
from the front come to the same: a numeral holds no colon, and so the digits that a number takes
greedily end where the first piece does.

Whatever its two numbers are, a window is cut back to bounds that are in order and inside the
memory. So the cells between them can be taken without a fault, and they are the cells of the
addresses in the window (`cells_are_slice`). An inverted window has no addresses. -/

namespace Accumulator

namespace Window

open Text

/-! ## How a window is written -/

/-- The texts that write a window from one number to another. -/
inductive Written : List Char → Nat → Nat → Prop
  | intro {front first second back : List Char} {start stop : Nat} :
      Blanks front → Digits first start → Digits second stop → Blanks back →
        Written (front ++ ((first ++ ':' :: second) ++ back)) start stop

theorem isWord_of_digits {first second : List Char} {start stop : Nat}
    (hfirst : Digits first start) (hsecond : Digits second stop) :
    IsWord (first ++ ':' :: second) := by
  refine ⟨by simp, ?_⟩
  intro c hc
  rcases List.mem_append.1 hc with hc | hc
  · exact hfirst.isWord.2 c hc
  · rcases List.mem_cons.1 hc with rfl | hc
    · decide
    · exact hsecond.isWord.2 c hc

theorem written_iff {text : List Char} {start stop : Nat} :
    Written text start stop ↔
      ∃ first second, trim text = first ++ ':' :: second ∧ Digits first start ∧
        Digits second stop := by
  constructor
  · intro h
    rcases h with ⟨hfront, hfirst, hsecond, hback⟩
    exact ⟨_, _, (isWord_of_digits hfirst hsecond).trim_append hfront hback, hfirst, hsecond⟩
  · intro h
    obtain ⟨first, second, htrim, hfirst, hsecond⟩ := h
    obtain ⟨front, back, hfront, hback, heq⟩ := exists_eq_append_trim text
    rw [heq, htrim, List.append_assoc]
    exact .intro hfront hfirst hsecond hback

/-- A window is written by its two numbers. -/
theorem toList_render (w : Window) :
    w.render.toList = w.start.toNat.repr.toList ++ ':' :: w.stop.toNat.repr.toList := by
  simp [render]

theorem written_render (w : Window) {front back : List Char} (hfront : Blanks front)
    (hback : Blanks back) :
    Written (front ++ (w.render.toList ++ back)) w.start.toNat w.stop.toNat := by
  rw [toList_render]
  exact .intro hfront (digits_repr _) (digits_repr _) hback

/-! ## Reading a window -/

theorem word64?_eq_some_iff_digits {text : List Char} {value : UInt64} :
    word64? text = some value ↔ Digits text value.toNat := by
  rw [word64?_eq_some_iff, natural?_eq_some_iff]

theorem splitOn_colon {first second : List Char} (hfirst : ':' ∉ first) (hsecond : ':' ∉ second) :
    (first ++ ':' :: second).splitOn ':' = [first, second] := by
  rw [List.splitOn_append_cons_self, List.splitOn_eq_singleton hfirst,
    List.splitOn_eq_singleton hsecond]
  rfl

theorem ofChars?_eq_some_iff {text : List Char} {w : Window} :
    ofChars? text = some w ↔
      ∃ first second, text = first ++ ':' :: second ∧ Digits first w.start.toNat ∧
        Digits second w.stop.toNat := by
  constructor
  · intro h
    unfold ofChars? at h
    split at h
    · next first second hsplit =>
      split at h
      · next start stop hstart hstop =>
        obtain rfl := Option.some.inj h
        refine ⟨first, second, ?_, word64?_eq_some_iff_digits.1 hstart,
          word64?_eq_some_iff_digits.1 hstop⟩
        have hjoin : [':'].intercalate (text.splitOn ':') = text := List.intercalate_splitOn ':'
        rw [hsplit] at hjoin
        simpa using hjoin.symm
      · simp at h
    · simp at h
  · intro h
    obtain ⟨first, second, rfl, hfirst, hsecond⟩ := h
    unfold ofChars?
    rw [splitOn_colon (hfirst.not_mem (by decide)) (hsecond.not_mem (by decide))]
    simp only [word64?_eq_some_iff_digits.2 hfirst, word64?_eq_some_iff_digits.2 hsecond]

/-- An address takes all digits that a text opens with. -/
theorem address_eq_some_iff {text rest : List Char} {value : UInt64} :
    address text = some (value, rest) ↔
      ∃ digits, text = digits ++ rest ∧ Digits digits value.toNat ∧
        ∀ c ∈ rest.head?, c.isDigit = false := by
  constructor
  · intro h
    unfold address at h
    split at h
    · simp at h
    · next digits after hrun =>
      obtain ⟨number, hnumber, heq⟩ := Option.map_eq_some_iff.1 h
      simp only [Prod.mk.injEq] at heq
      obtain ⟨rfl, rfl⟩ := heq
      obtain ⟨htext, -, -, hrest⟩ := Reader.run_eq_some_iff.1 hrun
      exact ⟨digits, htext, word64?_eq_some_iff_digits.1 hnumber, hrest⟩
  · intro h
    obtain ⟨digits, rfl, hdigits, hrest⟩ := h
    have hrun : Reader.run Char.isDigit (digits ++ rest) = some (digits, rest) :=
      Reader.run_eq_some_iff.2 ⟨rfl, hdigits.ne_nil, hdigits.isDigit, hrest⟩
    unfold address
    rw [hrun]
    simp only [word64?_eq_some_iff_digits.2 hdigits, Option.map_some]

theorem reader_eq_some_iff {text rest : List Char} {w : Window} :
    reader text = some (w, rest) ↔
      ∃ first second, text = first ++ ':' :: (second ++ rest) ∧ Digits first w.start.toNat ∧
        Digits second w.stop.toNat ∧ ∀ c ∈ rest.head?, c.isDigit = false := by
  constructor
  · intro h
    unfold reader at h
    split at h
    · next start next hstart =>
      obtain ⟨⟨stop, after⟩, hstop, heq⟩ := Option.map_eq_some_iff.1 h
      simp only [Prod.mk.injEq] at heq
      obtain ⟨rfl, rfl⟩ := heq
      obtain ⟨first, rfl, hfirst, -⟩ := address_eq_some_iff.1 hstart
      obtain ⟨second, rfl, hsecond, hrest⟩ := address_eq_some_iff.1 hstop
      exact ⟨first, second, rfl, hfirst, hsecond, hrest⟩
    · simp at h
  · intro h
    obtain ⟨first, second, rfl, hfirst, hsecond, hrest⟩ := h
    -- the first number ends at the colon, which is no digit
    have hstart : address (first ++ ':' :: (second ++ rest)) =
        some (w.start, ':' :: (second ++ rest)) :=
      address_eq_some_iff.2 ⟨first, rfl, hfirst, by simp⟩
    have hstop : address (second ++ rest) = some (w.stop, rest) :=
      address_eq_some_iff.2 ⟨second, rfl, hsecond, hrest⟩
    unfold reader
    rw [hstart]
    simp only [hstop, Option.map_some]

/-- It makes no difference whether a text is cut at its colons or read from the front. -/
theorem ofChars?_eq_whole_reader (text : List Char) : ofChars? text = reader.whole text := by
  apply Option.ext
  intro w
  rw [ofChars?_eq_some_iff, Reader.whole_eq_some_iff, reader_eq_some_iff]
  simp

theorem parse_eq_ok_iff {text : String} {w : Window} :
    parse text = .ok w ↔ Written text.toList w.start.toNat w.stop.toNat := by
  rw [written_iff, ← ofChars?_eq_some_iff, parse]
  cases ofChars? (trim text.toList) with
  | none => simp
  | some v => simp

theorem parse_eq_error_iff {text : String} {e : Error} :
    parse text = .error e ↔ e = .badWindow text ∧ ∀ w, parse text ≠ .ok w := by
  unfold parse
  cases ofChars? (trim text.toList) with
  | none => simp [eq_comm]
  | some v => simp

/-- **Windows are read as they are written.** A text is read as a window exactly if it writes one,
    and then the numbers of the window are those that are written. Leading zeros make no
    difference, and both numbers must fit sixty-four bits. Every other text is refused, and the
    error holds all of it, with its blanks. In particular a window is read back from its own text,
    whatever blanks are put around it. -/
theorem reads_written :
    (∀ (text : String) (w : Window),
      parse text = .ok w ↔ Written text.toList w.start.toNat w.stop.toNat) ∧
    (∀ (text : String) (e : Error),
      parse text = .error e ↔ e = .badWindow text ∧
        ¬ ∃ start stop, Written text.toList start stop ∧ start < 2 ^ 64 ∧ stop < 2 ^ 64) ∧
    ∀ (w : Window) (front back : List Char), Blanks front → Blanks back →
      parse (String.ofList (front ++ (w.render.toList ++ back))) = .ok w := by
  refine ⟨fun text w => parse_eq_ok_iff, ?_, ?_⟩
  · intro text e
    rw [parse_eq_error_iff]
    refine and_congr_right fun _ => ?_
    constructor
    · intro h
      rintro ⟨start, stop, hwritten, hstart, hstop⟩
      refine h ⟨UInt64.ofNat start, UInt64.ofNat stop⟩ (parse_eq_ok_iff.2 ?_)
      rwa [UInt64.toNat_ofNat_of_lt' hstart, UInt64.toNat_ofNat_of_lt' hstop]
    · intro h w hw
      exact h ⟨_, _, parse_eq_ok_iff.1 hw, w.start.toNat_lt, w.stop.toNat_lt⟩
  · intro w front back hfront hback
    rw [parse_eq_ok_iff, String.toList_ofList]
    exact w.written_render hfront hback

/-! ## What a window selects -/

/-- The addresses of a memory that lie in the window, in increasing order. -/
def addresses (w : Window) (size : Nat) : List Nat :=
  (List.range (min w.stop.toNat size)).filter fun address => w.start.toNat ≤ address

/-- The items between two bounds, which must be in order and inside the list. -/
def slice? {α : Type} (items : List α) (start stop : Nat) : Option (List α) :=
  if start ≤ stop ∧ stop ≤ items.length then some ((items.drop start).take (stop - start)) else none

variable {α : Type}

theorem take_drop_clamp (w : Window) (cells : List α) :
    ((cells.drop (w.clamp cells.length).1).take
        ((w.clamp cells.length).2 - (w.clamp cells.length).1)) =
      (cells.take w.stop.toNat).drop w.start.toNat := by
  simp only [clamp]
  rw [List.drop_take]
  by_cases hstart : w.start.toNat ≤ min w.stop.toNat cells.length
  · rw [Nat.min_eq_left hstart]
    apply List.take_eq_take_iff.2
    simp only [List.length_drop]
    omega
  · -- an inverted window, or one that starts beyond the memory, selects nothing
    have hempty : (cells.drop w.start.toNat).take (w.stop.toNat - w.start.toNat) = [] := by
      rw [List.take_eq_nil_iff]
      by_cases hstop : w.stop.toNat ≤ w.start.toNat
      · exact .inl (by omega)
      · exact .inr (List.drop_eq_nil_iff.2 (by omega))
    rw [hempty, List.take_eq_nil_iff]
    exact .inl (by omega)

/-- Bounds that a window was cut back to are good to take a slice, and the slice is what the window
    itself leaves of the list. -/
theorem slice?_clamp (w : Window) (items : List α) :
    slice? items (w.clamp items.length).1 (w.clamp items.length).2 =
      some ((items.take w.stop.toNat).drop w.start.toNat) := by
  rw [slice?, if_pos ⟨w.clamp_fst_le _, w.clamp_snd_le _⟩, take_drop_clamp]

theorem map_getElem?_range (items : List α) (stop : Nat) :
    (List.range (min stop items.length)).map (items[·]?) = (items.take stop).map some := by
  apply List.ext_getElem
  · simp
  · intro n hrange htake
    simp only [List.length_map, List.length_range] at hrange
    have hlt : n < items.length := by omega
    simp [List.getElem?_eq_getElem hlt]

theorem filter_le_range (start stop : Nat) :
    ((List.range stop).filter fun n => start ≤ n) = (List.range stop).drop start := by
  induction stop with
  | zero => simp
  | succ stop ih =>
    rw [List.range_succ, List.filter_append, ih]
    by_cases hstart : start ≤ stop
    · rw [List.drop_append_of_le_length (by rwa [List.length_range])]
      simp [hstart]
    · have hempty : (List.range stop ++ [stop]).drop start = [] :=
        List.drop_eq_nil_of_le (by simp; omega)
      rw [hempty, List.drop_eq_nil_of_le (by simp; omega)]
      simp [hstart]

/-- What a window leaves of a list are the items at its addresses. -/
theorem map_getElem?_addresses (w : Window) (items : List α) :
    (w.addresses items.length).map (items[·]?) =
      ((items.take w.stop.toNat).drop w.start.toNat).map some := by
  rw [addresses, filter_le_range, List.map_drop, map_getElem?_range, ← List.map_drop]

/-- Neighbouring parts of a list, put together, are one part. -/
theorem drop_take_append {start middle stop : Nat} (hstart : start ≤ middle) (hstop : middle ≤ stop)
    (items : List α) :
    (items.take middle).drop start ++ (items.take stop).drop middle =
      (items.take stop).drop start := by
  have hsplit : (items.take stop).drop start =
      ((items.take stop).take middle ++ (items.take stop).drop middle).drop start := by
    rw [List.take_append_drop]
  rw [hsplit, List.take_take, Nat.min_eq_left hstop]
  by_cases hshort : start ≤ items.length
  · rw [List.drop_append_of_le_length (by rw [List.length_take]; omega)]
  · -- the list ends before the first part begins, so all parts are empty
    have hempty : (items.take stop).drop middle = [] :=
      List.drop_eq_nil_of_le (by rw [List.length_take]; omega)
    rw [hempty, List.append_nil, List.append_nil]

end Window

namespace Machine

/-! ## The cells of a window -/

/-- The cells of a window are those before its end, without those before its start. -/
theorem cells_eq_drop_take (m : Machine) (w : Window) :
    m.cells w = (m.memory.toList.take w.stop.toNat).drop w.start.toNat := by
  have hsize : m.memory.size = m.memory.toList.length := Array.length_toList.symm
  rw [cells, Array.toList_extract, hsize, List.extract_eq_take_drop, Window.take_drop_clamp]

/-- **A window selects the cells of its addresses, and never faults.** Whatever the numbers of a
    window are, in order or not and inside the memory or not, it is cut back to bounds that are in
    order and inside the memory, and between these bounds stand the cells that it gives. They are
    the cells at the addresses from the start of the window up to its end or the end of the memory,
    in increasing order. Windows that meet give, one after the other, what one window over both
    gives. -/
theorem cells_are_slice (m : Machine) :
    (∀ w : Window, (w.clamp m.memory.size).1 ≤ (w.clamp m.memory.size).2 ∧
      (w.clamp m.memory.size).2 ≤ m.memory.size) ∧
    (∀ w : Window, Window.slice? m.memory.toList (w.clamp m.memory.size).1
      (w.clamp m.memory.size).2 = some (m.cells w)) ∧
    (∀ w : Window, (m.cells w).map some =
      (w.addresses m.memory.size).map fun address => m.memory[address]?) ∧
    ∀ start middle stop : UInt64, start ≤ middle → middle ≤ stop →
      m.cells ⟨start, middle⟩ ++ m.cells ⟨middle, stop⟩ = m.cells ⟨start, stop⟩ := by
  refine ⟨fun w => ⟨w.clamp_fst_le _, w.clamp_snd_le _⟩, ?_, ?_, ?_⟩
  · intro w
    rw [← Array.length_toList, Window.slice?_clamp, cells_eq_drop_take]
  · intro w
    rw [cells_eq_drop_take, ← Window.map_getElem?_addresses, Array.length_toList]
    simp only [Array.getElem?_toList]
  · intro start middle stop hstart hstop
    rw [cells_eq_drop_take, cells_eq_drop_take, cells_eq_drop_take]
    exact Window.drop_take_append (UInt64.le_iff_toNat_le.1 hstart)
      (UInt64.le_iff_toNat_le.1 hstop) _

end Machine

end Accumulator
