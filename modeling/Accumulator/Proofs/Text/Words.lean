import Accumulator.Text.Blank
set_option autoImplicit false

/-! # Where the words of a text stand

A text is *spaced* from some words if it is those words, in order, with one gap between any two of
them and nothing else. The reader of words accepts a text that is not empty exactly if it is spaced
from some words, and those are the words it reads.

Trimming and reading words meet at the ends of a text: a text that neither opens nor ends with a
blank is found again after blanks were put around it. -/

namespace Accumulator.Text

/-- Nothing but blanks. -/
def Blanks (text : List Char) : Prop := ∀ c ∈ text, isBlank c = true

/-- One blank or more. -/
def IsGap (text : List Char) : Prop := text ≠ [] ∧ Blanks text

/-- One character or more, and no blank. -/
def IsWord (text : List Char) : Prop := text ≠ [] ∧ ∀ c ∈ text, isBlank c = false

/-- What a text goes on with after a word, if further words are to follow. -/
inductive SpacedAfter : List (List Char) → List Char → Prop
  | nil : SpacedAfter [] []
  | cons {front first : List Char} {words : List (List Char)} {text : List Char} :
      IsGap front → IsWord first → SpacedAfter words text →
        SpacedAfter (first :: words) (front ++ (first ++ text))

/-- Words with a gap between any two. -/
inductive Spaced : List (List Char) → List Char → Prop
  | cons {first : List Char} {words : List (List Char)} {text : List Char} :
      IsWord first → SpacedAfter words text → Spaced (first :: words) (first ++ text)

theorem blanks_nil : Blanks [] := by
  simp [Blanks]

theorem blanks_singleton {c : Char} (h : isBlank c = true) : Blanks [c] := by
  intro d hd
  rwa [List.mem_singleton.1 hd]

theorem blanks_return : Blanks ['\r'] :=
  blanks_singleton (by decide)

theorem Blanks.append {front back : List Char} (hfront : Blanks front) (hback : Blanks back) :
    Blanks (front ++ back) := by
  intro c hc
  exact (List.mem_append.1 hc).elim (hfront c) (hback c)

theorem isWord_iff_all {text : List Char} :
    IsWord text ↔ text ≠ [] ∧ text.all (fun c => !isBlank c) = true := by
  simp [IsWord]

theorem IsWord.newline_not_mem {text : List Char} (h : IsWord text) : '\n' ∉ text := by
  intro hmem
  exact absurd (h.2 _ hmem) (by decide)

theorem spaced_pair {first second between : List Char} (hfirst : IsWord first)
    (hbetween : IsGap between) (hsecond : IsWord second) :
    Spaced [first, second] (first ++ (between ++ second)) := by
  have hlast : SpacedAfter [second] (between ++ (second ++ [])) :=
    .cons hbetween hsecond .nil
  rw [List.append_nil] at hlast
  exact .cons hfirst hlast

theorem eq_of_spaced_pair {first second text : List Char} (h : Spaced [first, second] text) :
    ∃ between, IsWord first ∧ IsGap between ∧ IsWord second ∧
      text = first ++ (between ++ second) := by
  cases h with
  | cons hfirst hafter =>
    cases hafter with
    | @cons between _ _ _ hbetween hsecond hnil =>
      cases hnil with
      | nil => exact ⟨between, hfirst, hbetween, hsecond, by rw [List.append_nil]⟩

/-! ## The ends of words and gaps -/

theorem head?_append_of_ne_nil {front : List Char} (h : front ≠ []) (rest : List Char) :
    (front ++ rest).head? = front.head? := by
  cases front with
  | nil => exact absurd rfl h
  | cons c front => rfl

theorem IsWord.head?_append {w : List Char} (h : IsWord w) (rest : List Char) :
    ∀ c ∈ (w ++ rest).head?, isBlank c = false := by
  intro c hc
  rw [head?_append_of_ne_nil h.1] at hc
  exact h.2 c (List.mem_of_mem_head? hc)

theorem SpacedAfter.head? {words : List (List Char)} {text : List Char}
    (h : SpacedAfter words text) : ∀ c ∈ text.head?, isBlank c = true := by
  intro c hc
  cases h with
  | nil => simp at hc
  | cons hgap _ _ =>
    rw [head?_append_of_ne_nil hgap.1] at hc
    exact hgap.2 c (List.mem_of_mem_head? hc)

theorem length_lt_append {front : List Char} (h : front ≠ []) (rest : List Char) :
    rest.length < (front ++ rest).length := by
  have := List.length_pos_iff.2 h
  rw [List.length_append]
  omega

/-! ## Reading words -/

theorem gap_eq_some_iff {text front rest : List Char} :
    gap text = some (front, rest) ↔
      text = front ++ rest ∧ IsGap front ∧ ∀ c ∈ rest.head?, isBlank c = false := by
  rw [gap, Reader.run_eq_some_iff, IsGap, Blanks, and_assoc]

theorem word_eq_some_iff {text front rest : List Char} :
    word text = some (front, rest) ↔
      text = front ++ rest ∧ IsWord front ∧ ∀ c ∈ rest.head?, isBlank c = true := by
  rw [word, Reader.run_eq_some_iff, IsWord, and_assoc]
  simp

theorem SpacedAfter.word_append {first : List Char} {words : List (List Char)} {text : List Char}
    (h : SpacedAfter words text) (hfirst : IsWord first) :
    word (first ++ text) = some (first, text) :=
  word_eq_some_iff.2 ⟨rfl, hfirst, h.head?⟩

theorem listAfter_of_spacedAfter {words : List (List Char)} {text : List Char}
    (h : SpacedAfter words text) : Reader.listAfter gap word text = some (words, []) := by
  induction h with
  | nil =>
    rw [Reader.listAfter, gap, Reader.run_eq_none_iff.2 (by simp)]
  | @cons front first words text hgap hword hafter ih =>
    have hread : gap (front ++ (first ++ text)) = some (front, first ++ text) :=
      gap_eq_some_iff.2 ⟨rfl, hgap, hword.head?_append text⟩
    have hlt : text.length < (front ++ (first ++ text)).length :=
      Nat.lt_trans (length_lt_append hword.1 text) (length_lt_append hgap.1 (first ++ text))
    rw [Reader.listAfter, hread]
    simp only [hafter.word_append hword, if_pos hlt, ih, Option.map_some]

theorem spacedAfter_of_listAfter (text : List Char) :
    ∀ {words : List (List Char)}, Reader.listAfter gap word text = some (words, []) →
      SpacedAfter words text := by
  fun_induction Reader.listAfter gap word text with
  | case1 text hgap =>
    intro words h
    simp only [Option.some.injEq, Prod.mk.injEq] at h
    obtain ⟨rfl, rfl⟩ := h
    exact .nil
  | case2 text front next hgap hword =>
    -- a gap that no word follows stays in the text, so the text would not be read to its end
    intro words h
    simp only [Option.some.injEq, Prod.mk.injEq] at h
    obtain ⟨-, rfl⟩ := h
    simp [gap, Reader.run] at hgap
  | case3 text front next hgap first rest hword hlt ih =>
    intro words h
    obtain ⟨⟨later, after⟩, hlater, heq⟩ := Option.map_eq_some_iff.1 h
    simp only [Prod.mk.injEq] at heq
    obtain ⟨rfl, rfl⟩ := heq
    obtain ⟨rfl, hfront, -⟩ := gap_eq_some_iff.1 hgap
    obtain ⟨rfl, hfirst, -⟩ := word_eq_some_iff.1 hword
    exact .cons hfront hfirst (ih hlater)
  | case4 => simp

/-- The words that are read of a text are those it is spaced from. -/
theorem whole_words_eq_some_iff {text : List Char} (hne : text ≠ []) {found : List (List Char)} :
    words.whole text = some found ↔ Spaced found text := by
  rw [Reader.whole_eq_some_iff, words, Reader.list]
  constructor
  · intro h
    split at h
    · -- without a first word nothing is read, and the text is not empty
      simp only [Option.some.injEq, Prod.mk.injEq] at h
      exact absurd h.2 hne
    · next first rest hword =>
      obtain ⟨rfl, hfirst, -⟩ := word_eq_some_iff.1 hword
      split at h
      · obtain ⟨⟨later, after⟩, hlater, heq⟩ := Option.map_eq_some_iff.1 h
        simp only [Prod.mk.injEq] at heq
        obtain ⟨rfl, rfl⟩ := heq
        exact .cons hfirst (spacedAfter_of_listAfter rest hlater)
      · simp at h
  · intro h
    cases h with
    | @cons first later rest hfirst hafter =>
      simp only [hafter.word_append hfirst, if_pos (length_lt_append hfirst.1 rest),
        listAfter_of_spacedAfter hafter, Option.map_some]

/-! ## Trimming -/

theorem trimStart_append {front : List Char} (hfront : Blanks front) {body : List Char}
    (hbody : ∀ c ∈ body.head?, isBlank c = false) : trimStart (front ++ body) = body := by
  rw [trimStart, List.dropWhile_append_of_pos hfront]
  cases body with
  | nil => rfl
  | cons c body => exact List.dropWhile_cons_of_neg (by simpa using hbody c rfl)

theorem trimEnd_append {back : List Char} (hback : Blanks back) {body : List Char}
    (hbody : ∀ c ∈ body.getLast?, isBlank c = false) : trimEnd (body ++ back) = body := by
  have hreverse : trimStart (back.reverse ++ body.reverse) = body.reverse :=
    trimStart_append (fun c hc => hback c (List.mem_reverse.1 hc)) (by simpa using hbody)
  rw [trimStart, ← List.reverse_append] at hreverse
  rw [trimEnd, hreverse, List.reverse_reverse]

theorem trim_eq_nil_of_blanks {text : List Char} (h : Blanks text) : trim text = [] := by
  have hstart : trimStart (text ++ []) = [] := trimStart_append h (by simp)
  rw [List.append_nil] at hstart
  rw [trim, hstart]
  rfl

/-- Blanks around a text that has none at its ends are trimmed away, and nothing else is. -/
theorem trim_append {front back body : List Char} (hfront : Blanks front) (hback : Blanks back)
    (hhead : ∀ c ∈ body.head?, isBlank c = false)
    (hlast : ∀ c ∈ body.getLast?, isBlank c = false) : trim (front ++ (body ++ back)) = body := by
  by_cases hbody : body = []
  · subst hbody
    exact trim_eq_nil_of_blanks (hfront.append hback)
  · have hstart : trimStart (front ++ (body ++ back)) = body ++ back := by
      apply trimStart_append hfront
      rwa [head?_append_of_ne_nil hbody]
    rw [trim, hstart, trimEnd_append hback hlast]

theorem IsWord.getLast? {w : List Char} (h : IsWord w) :
    ∀ c ∈ w.getLast?, isBlank c = false :=
  fun c hc => h.2 c (List.mem_of_getLast? hc)

theorem IsWord.trim_append {w front back : List Char} (h : IsWord w) (hfront : Blanks front)
    (hback : Blanks back) : trim (front ++ (w ++ back)) = w :=
  Text.trim_append hfront hback (fun c hc => h.2 c (List.mem_of_mem_head? hc)) h.getLast?

/-- Blanks put around any text are trimmed away with those that it has itself. -/
theorem trim_surround {front back : List Char} (hfront : Blanks front) (hback : Blanks back)
    (text : List Char) : trim (front ++ (text ++ back)) = trim text := by
  obtain ⟨opening, closing, hopening, hclosing, heq⟩ := exists_eq_append_trim text
  have hassoc : front ++ (text ++ back)
      = (front ++ opening) ++ (trim text ++ (closing ++ back)) := by
    calc front ++ (text ++ back)
        = front ++ ((opening ++ trim text ++ closing) ++ back) := by rw [← heq]
      _ = (front ++ opening) ++ (trim text ++ (closing ++ back)) := by
          simp only [List.append_assoc]
  rw [hassoc]
  exact trim_append (hfront.append hopening) (Blanks.append hclosing hback)
    (head?_trim_not_blank text) (getLast?_trim_not_blank text)

theorem trim_two_words {front first between second back : List Char} (hfront : Blanks front)
    (hfirst : IsWord first) (hsecond : IsWord second) (hback : Blanks back) :
    trim (front ++ first ++ between ++ second ++ back) = first ++ (between ++ second) := by
  have hlast : (first ++ (between ++ second)).getLast? = second.getLast? := by
    rw [← List.append_assoc, List.getLast?_append, List.getLast?_eq_some_getLast hsecond.1]
    rfl
  have hassoc : front ++ first ++ between ++ second ++ back
      = front ++ ((first ++ (between ++ second)) ++ back) := by
    simp only [List.append_assoc]
  rw [hassoc]
  apply trim_append hfront hback (hfirst.head?_append _)
  rw [hlast]
  exact fun c hc => hsecond.2 c (List.mem_of_getLast? hc)

/-- A text of blanks is trimmed to nothing, and no other text is. -/
theorem trim_eq_nil_iff {text : List Char} : trim text = [] ↔ Blanks text := by
  refine ⟨fun h => ?_, trim_eq_nil_of_blanks⟩
  obtain ⟨front, back, hfront, hback, heq⟩ := exists_eq_append_trim text
  rw [heq, h, List.append_nil]
  exact Blanks.append hfront hback

/-- A trimmed text opens with the first character that is not blank. -/
theorem head?_trim_append_cons {front rest : List Char} {c : Char} (hfront : Blanks front)
    (hc : isBlank c = false) : (trim (front ++ c :: rest)).head? = some c := by
  obtain ⟨back, hback, heq⟩ := exists_eq_append_trimEnd (c :: rest)
  have hstart : trimStart (front ++ c :: rest) = c :: rest :=
    trimStart_append hfront (by simpa using hc)
  rw [trim, hstart]
  cases hend : trimEnd (c :: rest) with
  | nil =>
    -- all of `c :: rest` would then be blank
    rw [hend, List.nil_append] at heq
    have := hback c (heq ▸ List.mem_cons_self ..)
    rw [hc] at this
    exact absurd this (by decide)
  | cons d body =>
    rw [hend, List.cons_append] at heq
    rw [(List.cons.inj heq).1]
    rfl

/-! ## Separators -/

/-- A text in which a separator stands tells what is before the first one, and what is after it. -/
theorem eq_and_eq_of_append_cons {separator : Char} {front other rest further : List Char}
    (hfront : separator ∉ front) (hother : separator ∉ other)
    (h : front ++ separator :: rest = other ++ separator :: further) :
    front = other ∧ rest = further := by
  induction front generalizing other with
  | nil =>
    cases other with
    | nil => exact ⟨rfl, List.tail_eq_of_cons_eq h⟩
    | cons c other => exact absurd (List.head_eq_of_cons_eq h) (List.ne_of_not_mem_cons hother)
  | cons c front ih =>
    cases other with
    | nil => exact absurd (List.head_eq_of_cons_eq h).symm (List.ne_of_not_mem_cons hfront)
    | cons d other =>
      obtain ⟨rfl, htail⟩ := List.cons_eq_cons.1 h
      obtain ⟨rfl, rfl⟩ := ih (List.not_mem_of_not_mem_cons hfront)
        (List.not_mem_of_not_mem_cons hother) htail
      exact ⟨rfl, rfl⟩

end Accumulator.Text
