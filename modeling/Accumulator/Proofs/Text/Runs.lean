import Accumulator.Proofs.Text.Words
set_option autoImplicit false

/-! # Maximal runs

`Runs` cuts a text at its blanks without saying how to read it. Each run is as long as it can be:
blanks or an end of the text stand on either side. Every text has runs in exactly one way
(`exists_runs`, `Runs.unique`).

The runs of a line are the words that are read of it after trimming (`whole_words_trim_iff`), so
that reading the words of a trimmed line never fails if there is anything in it. -/

namespace Accumulator.Text

/-- The maximal runs of characters that are not blank, in the order of the text. -/
inductive Runs : List Char → List (List Char) → Prop
  | nil {text : List Char} : Blanks text → Runs text []
  | cons {front run rest : List Char} {later : List (List Char)} :
      Blanks front → IsWord run → (∀ c ∈ rest.head?, isBlank c = true) → Runs rest later →
        Runs (front ++ (run ++ rest)) (run :: later)

theorem Blanks.head? {text : List Char} (h : Blanks text) :
    ∀ c ∈ text.head?, isBlank c = true :=
  fun c hc => h c (List.mem_of_mem_head? hc)

/-- There is more than blanks in a text with a run. -/
theorem IsWord.not_blanks {run : List Char} (h : IsWord run) (front rest : List Char) :
    ¬ Blanks (front ++ (run ++ rest)) := by
  intro hblanks
  obtain ⟨c, hc⟩ := List.exists_mem_of_ne_nil run h.1
  have hblank := hblanks c (by simp [hc])
  rw [h.2 c hc] at hblank
  exact absurd hblank (by decide)

/-- Blanks in front of a run are seen at the front of the text. -/
theorem IsWord.front_eq_nil_iff {front run : List Char} (h : IsWord run) (hfront : Blanks front)
    (rest : List Char) :
    front = [] ↔ ¬ ∀ c ∈ (front ++ (run ++ rest)).head?, isBlank c = true := by
  constructor
  · rintro rfl hblank
    obtain ⟨c, tail, rfl⟩ := List.exists_cons_of_ne_nil h.1
    have hc := h.2 c (List.mem_cons_self ..)
    rw [hblank c rfl] at hc
    exact absurd hc (by decide)
  · intro hblank
    cases front with
    | nil => rfl
    | cons c front => exact absurd (by simpa using hfront c (List.mem_cons_self ..)) hblank

/-! ## Every text has runs in exactly one way -/

theorem Runs.cons_blank {text : List Char} {found : List (List Char)} {c : Char}
    (hc : isBlank c = true) (h : Runs text found) : Runs (c :: text) found := by
  cases h with
  | nil hblanks => exact .nil (List.forall_mem_cons.2 ⟨hc, hblanks⟩)
  | cons hfront hrun hhead hrest =>
    exact .cons (List.forall_mem_cons.2 ⟨hc, hfront⟩) hrun hhead hrest

theorem exists_runs (text : List Char) : ∃ found, Runs text found := by
  induction text with
  | nil => exact ⟨[], .nil blanks_nil⟩
  | cons c text ih =>
    obtain ⟨found, h⟩ := ih
    cases hc : isBlank c with
    | true => exact ⟨found, h.cons_blank hc⟩
    | false =>
      by_cases hhead : ∀ d ∈ text.head?, isBlank d = true
      · -- the character is a run of its own
        have hword : IsWord [c] := ⟨by simp, by simpa using hc⟩
        exact ⟨[c] :: found, .cons blanks_nil hword hhead h⟩
      · -- the character opens the first run of the text, before which there is no blank
        cases h with
        | nil hblanks => exact absurd hblanks.head? hhead
        | @cons front run rest later hfront hrun hrest hlater =>
          obtain rfl := (hrun.front_eq_nil_iff hfront rest).2 hhead
          have hword : IsWord (c :: run) := ⟨by simp, List.forall_mem_cons.2 ⟨hc, hrun.2⟩⟩
          exact ⟨(c :: run) :: later, .cons blanks_nil hword hrest hlater⟩

theorem Runs.unique {text : List Char} {found other : List (List Char)} (h : Runs text found)
    (h' : Runs text other) : found = other := by
  induction h generalizing other with
  | nil hblanks =>
    cases h' with
    | nil => rfl
    | cons _ hrun => exact absurd hblanks (hrun.not_blanks _ _)
  | @cons front run rest later hfront hrun hhead _ ih =>
    -- trimming finds where the first run begins, and reading a word finds where it ends
    have hstart := trimStart_append hfront (hrun.head?_append rest)
    have hword : word (run ++ rest) = some (run, rest) := word_eq_some_iff.2 ⟨rfl, hrun, hhead⟩
    have hmore := hrun.not_blanks front rest
    generalize front ++ (run ++ rest) = text at h' hstart hmore
    cases h' with
    | nil hblanks => exact absurd hblanks hmore
    | @cons front' run' rest' later' hfront' hrun' hhead' hlater' =>
      rw [trimStart_append hfront' (hrun'.head?_append rest')] at hstart
      rw [← hstart, word_eq_some_iff.2 ⟨rfl, hrun', hhead'⟩] at hword
      simp only [Option.some.injEq, Prod.mk.injEq] at hword
      obtain ⟨rfl, rfl⟩ := hword
      rw [ih hlater']

/-! ## Runs and words -/

theorem runs_of_spacedAfter {words : List (List Char)} {text back : List Char}
    (h : SpacedAfter words text) (hback : Blanks back) :
    Runs (text ++ back) words ∧ ∀ c ∈ (text ++ back).head?, isBlank c = true := by
  induction h with
  | nil => exact ⟨.nil hback, hback.head?⟩
  | @cons front first words text hgap hword _ ih =>
    obtain ⟨hruns, hhead⟩ := ih
    rw [List.append_assoc, List.append_assoc]
    refine ⟨.cons hgap.2 hword hhead hruns, ?_⟩
    rw [head?_append_of_ne_nil hgap.1]
    exact Blanks.head? hgap.2

/-- After a word there are gaps and words, and at last blanks. -/
theorem Runs.exists_spacedAfter {rest : List Char} {later : List (List Char)} (h : Runs rest later)
    (hhead : ∀ c ∈ rest.head?, isBlank c = true) :
    ∃ text back, SpacedAfter later text ∧ Blanks back ∧ rest = text ++ back := by
  induction h with
  | @nil text hblanks => exact ⟨[], text, .nil, hblanks, rfl⟩
  | @cons front run rest later hfront hrun hrest _ ih =>
    obtain ⟨text, back, hafter, hback, rfl⟩ := ih hrest
    have hgap : IsGap front := by
      refine ⟨fun hempty => ?_, hfront⟩
      exact (hrun.front_eq_nil_iff hfront (text ++ back)).1 hempty hhead
    refine ⟨front ++ (run ++ text), back, .cons hgap hrun hafter, hback, ?_⟩
    rw [List.append_assoc, List.append_assoc]

theorem SpacedAfter.getLast? {words : List (List Char)} {text front : List Char}
    (h : SpacedAfter words text) (hfront : ∀ c ∈ front.getLast?, isBlank c = false) :
    ∀ c ∈ (front ++ text).getLast?, isBlank c = false := by
  induction h generalizing front with
  | nil => simpa using hfront
  | @cons gap first words text hgap hword _ ih =>
    rw [← List.append_assoc, ← List.append_assoc]
    apply ih
    intro c hc
    rw [List.getLast?_append, List.getLast?_eq_some_getLast hword.1] at hc
    obtain rfl := Option.some.inj hc
    exact hword.2 _ (List.getLast_mem hword.1)

/-- The words that are read of a trimmed line are the runs of the line. -/
theorem whole_words_trim_iff {line : List Char} (hne : trim line ≠ []) {found : List (List Char)} :
    words.whole (trim line) = some found ↔ Runs line found := by
  rw [whole_words_eq_some_iff hne]
  constructor
  · intro h
    obtain ⟨front, back, hfront, hback, heq⟩ := exists_eq_append_trim line
    rw [heq, List.append_assoc]
    generalize trim line = body at h
    cases h with
    | @cons first words text hfirst hafter =>
      obtain ⟨hruns, hhead⟩ := runs_of_spacedAfter hafter hback
      rw [List.append_assoc]
      exact .cons hfront hfirst hhead hruns
  · intro h
    cases h with
    | nil hblanks => exact absurd (trim_eq_nil_of_blanks hblanks) hne
    | @cons front run rest later hfront hrun hhead hlater =>
      obtain ⟨text, back, hafter, hback, rfl⟩ := hlater.exists_spacedAfter hhead
      have hlast : ∀ c ∈ run.getLast?, isBlank c = false :=
        fun c hc => hrun.2 c (List.mem_of_getLast? hc)
      have htrim : trim (front ++ ((run ++ text) ++ back)) = run ++ text :=
        trim_append hfront hback (hrun.head?_append text) (hafter.getLast? hlast)
      rw [← List.append_assoc run, htrim]
      exact .cons hrun hafter

end Accumulator.Text
