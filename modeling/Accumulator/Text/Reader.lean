set_option autoImplicit false

/-! # Reading from the front of a text

A *reader* takes something off the front of a text and hands back the text after it, or refuses.
Readers are greedy and never go back: a run of characters is as long as it can be, and a list of
items goes on for as long as a separator and an item follow.

A list may be empty, and a separator that no item follows is left in the text. A round of a list in
which nothing was taken refuses the whole list; so lists end, whatever they are made of. -/

namespace Accumulator.Text

/-- Takes something off the front of a text: what was read, and the text after it. -/
abbrev Reader (α : Type) := List Char → Option (α × List Char)

namespace Reader

variable {α β : Type}

/-- The longest run of characters with a property, one character or more. -/
def run (p : Char → Bool) : Reader (List Char) := fun text =>
  if text.takeWhile p = [] then none else some (text.takeWhile p, text.dropWhile p)

/-- The items that go on a list, each of them after a separator. -/
def listAfter (separator : Reader β) (item : Reader α) (text : List Char) :
    Option (List α × List Char) :=
  match separator text with
  | none => some ([], text)
  | some (_, next) =>
    match item next with
    | none => some ([], text)
    | some (first, rest) =>
      if rest.length < text.length then
        (listAfter separator item rest).map fun (items, after) => (first :: items, after)
      else none
termination_by text.length

/-- Items with a separator between any two. -/
def list (separator : Reader β) (item : Reader α) : Reader (List α) := fun text =>
  match item text with
  | none => some ([], text)
  | some (first, rest) =>
    if rest.length < text.length then
      (listAfter separator item rest).map fun (items, after) => (first :: items, after)
    else none

/-- What a reader makes of a whole text, if it leaves nothing of it. -/
def whole (reader : Reader α) (text : List Char) : Option α :=
  match reader text with
  | some (a, []) => some a
  | _ => none

/-- What a run takes is the longest front of the text with the property. -/
theorem run_eq_some_iff {p : Char → Bool} {text front rest : List Char} :
    run p text = some (front, rest) ↔
      text = front ++ rest ∧ front ≠ [] ∧ (∀ c ∈ front, p c = true) ∧
        ∀ c ∈ rest.head?, p c = false := by
  unfold run
  constructor
  · intro h
    split at h
    · simp at h
    · next hne =>
      simp only [Option.some.injEq, Prod.mk.injEq] at h
      obtain ⟨rfl, rfl⟩ := h
      refine ⟨List.takeWhile_append_dropWhile.symm, hne, List.all_eq_true.1 List.all_takeWhile, ?_⟩
      intro c hc
      have := List.head?_dropWhile_not p text
      rw [hc] at this
      simpa using this
  · rintro ⟨rfl, hne, hfront, hrest⟩
    have htake : rest.takeWhile p = [] := by
      cases rest with
      | nil => rfl
      | cons c rest => exact List.takeWhile_cons_of_neg (by simpa using hrest c rfl)
    have hdrop : rest.dropWhile p = rest := by
      cases rest with
      | nil => rfl
      | cons c rest => exact List.dropWhile_cons_of_neg (by simpa using hrest c rfl)
    rw [List.takeWhile_append_of_pos hfront, List.dropWhile_append_of_pos hfront, htake, hdrop,
      List.append_nil, if_neg hne]

/-- A run is refused where its first character would not belong to it. -/
theorem run_eq_none_iff {p : Char → Bool} {text : List Char} :
    run p text = none ↔ ∀ c ∈ text.head?, p c = false := by
  cases text with
  | nil => simp [run]
  | cons c rest => cases hc : p c <;> simp [run, hc]

theorem whole_eq_some_iff {reader : Reader α} {text : List Char} {a : α} :
    whole reader text = some a ↔ reader text = some (a, []) := by
  unfold whole
  split
  · next h => simp [h]
  · next hne => simpa using fun h => hne a h

end Reader

end Accumulator.Text
