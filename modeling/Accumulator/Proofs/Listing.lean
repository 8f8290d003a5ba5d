import Accumulator.Proofs.Grammar
set_option autoImplicit false

/-! # Listings

A listing has one line for each instruction: the mnemonic of its opcode, a blank, and its operand in
decimal. Such a line is two words, and both are found in it again, so a listing tells its program
whatever opcodes it has. A line with a known mnemonic is read as the instruction it lists; one with
an unknown opcode is refused as soon as it is reached, since the text that marks the opcode is no
mnemonic.

So the listing of a program assembles to the program exactly if all its opcodes are known
(`assemble_disassemble`). -/

namespace Accumulator

/-! ## The mnemonic of a code -/

namespace Operation

open Text

/-- The text that marks an unknown code. -/
theorem mnemonicOfCode_of_none {n : Nat} (h : ofCode? n = none) :
    mnemonicOfCode n = String.join ["unknown(", n.repr, ")"] := by
  rw [mnemonicOfCode, h]

theorem toList_mnemonicOfCode_of_none {n : Nat} (h : ofCode? n = none) :
    (mnemonicOfCode n).toList = "unknown(".toList ++ n.repr.toList ++ [')'] := by
  rw [mnemonicOfCode_of_none h]
  simp

theorem isWord_mnemonicOfCode (n : Nat) : IsWord (mnemonicOfCode n).toList := by
  cases h : ofCode? n with
  | some op =>
    obtain rfl := ofCode?_eq_some_iff.1 h
    simpa using op.isWord_mnemonic
  | none =>
    rw [toList_mnemonicOfCode_of_none h]
    have hopening : IsWord "unknown(".toList := isWord_iff_all.2 (by decide)
    refine ⟨by simp, fun c hc => ?_⟩
    simp only [List.mem_append, List.mem_singleton] at hc
    rcases hc with (hc | hc) | rfl
    · exact hopening.2 c hc
    · exact (digits_repr n).isWord.2 c hc
    · decide

theorem head?_mnemonicOfCode_ne (n : Nat) : (mnemonicOfCode n).toList.head? ≠ some '#' := by
  cases h : ofCode? n with
  | some op =>
    obtain rfl := ofCode?_eq_some_iff.1 h
    simpa using op.head?_mnemonic_ne
  | none =>
    rw [toList_mnemonicOfCode_of_none h]
    simp

/-- The mnemonic of a code is looked up as the code is. -/
theorem ofMnemonic?_mnemonicOfCode (n : Nat) : ofMnemonic? (mnemonicOfCode n) = ofCode? n := by
  cases h : ofCode? n with
  | some op =>
    obtain rfl := ofCode?_eq_some_iff.1 h
    simp [ofMnemonic?_eq_some_iff]
  | none =>
    rw [Option.eq_none_iff_forall_ne_some]
    intro op hop
    rw [ofMnemonic?_eq_some_iff] at hop
    -- no mnemonic opens with the letter that the mark of an unknown code opens with
    have hhead := congrArg (fun word => word.toList.head?) hop
    simp only [toList_mnemonicOfCode_of_none h] at hhead
    revert hhead
    cases op <;> simp [mnemonic]

theorem mnemonicOfCode_injective {a b : Nat} (h : mnemonicOfCode a = mnemonicOfCode b) :
    a = b := by
  have hcodes : ofCode? a = ofCode? b := by
    rw [← ofMnemonic?_mnemonicOfCode, h, ofMnemonic?_mnemonicOfCode]
  cases ha : ofCode? a with
  | some op =>
    have hb := hcodes.symm.trans ha
    exact (ofCode?_eq_some_iff.1 ha).symm.trans (ofCode?_eq_some_iff.1 hb)
  | none =>
    have hb := hcodes.symm.trans ha
    have htext := congrArg String.toList h
    rw [toList_mnemonicOfCode_of_none ha, toList_mnemonicOfCode_of_none hb] at htext
    have hrepr := List.append_cancel_left (List.append_cancel_right htext)
    exact eq_of_repr_eq (String.toList_inj.1 hrepr)

end Operation

/-! ## The line of an instruction -/

namespace Text

theorem isGap_space : IsGap [' '] :=
  ⟨by simp, blanks_singleton (by decide)⟩

theorem newline_not_mem_pair {first second : List Char} (hfirst : IsWord first)
    (hsecond : IsWord second) : '\n' ∉ first ++ ([' '] ++ second) := by
  simp [hfirst.newline_not_mem, hsecond.newline_not_mem]

theorem getLast?_pair_ne (first : List Char) {second : List Char} (hsecond : IsWord second) :
    (first ++ ([' '] ++ second)).getLast? ≠ some '\r' := by
  intro h
  -- the text ends as its second word does
  rw [← List.append_assoc, List.getLast?_append_of_ne_nil _ hsecond.1] at h
  exact absurd (hsecond.getLast? _ h) (by decide)

end Text

namespace Instruction

open Text

theorem numeral_address (i : Instruction) : Numeral i.address.repr.toList i.address :=
  .unsigned (digits_repr i.address)

@[simp]
theorem toList_render (i : Instruction) :
    i.render.toList = i.mnemonic.toList ++ ([' '] ++ i.address.repr.toList) := by
  simp [render]

theorem spaced_render (i : Instruction) :
    Spaced [i.mnemonic.toList, i.address.repr.toList] i.render.toList := by
  rw [toList_render]
  exact spaced_pair (Operation.isWord_mnemonicOfCode _) isGap_space i.numeral_address.isWord

theorem newline_not_mem_render (i : Instruction) : '\n' ∉ i.render.toList := by
  rw [toList_render]
  exact newline_not_mem_pair (Operation.isWord_mnemonicOfCode _) i.numeral_address.isWord

theorem getLast?_render_ne (i : Instruction) : i.render.toList.getLast? ≠ some '\r' := by
  rw [toList_render]
  exact getLast?_pair_ne _ i.numeral_address.isWord

/-- A line of a listing tells its instruction. -/
theorem render_injective {i j : Instruction} (h : i.render = j.render) : i = j := by
  -- both lines are read as the same two words
  have hne : i.render.toList ≠ [] := by simp
  have hi := (whole_words_eq_some_iff hne).2 i.spaced_render
  have hj := (whole_words_eq_some_iff (h ▸ hne)).2 j.spaced_render
  rw [h, hj] at hi
  simp only [Option.some.injEq, List.cons.injEq, and_true, String.toList_inj] at hi
  obtain ⟨hmnemonic, hrepr⟩ := hi
  have hopcode := Operation.mnemonicOfCode_injective hmnemonic
  have haddress := eq_of_repr_eq hrepr
  obtain ⟨opcode, operand⟩ := i
  rw [mk.injEq]
  exact ⟨BitVec.eq_of_toNat_eq hopcode.symm, BitVec.eq_of_toNat_eq haddress.symm⟩

/-- The clause that lists an instruction. -/
theorem encodes_of_operation? {i : Instruction} {op : Operation} (h : i.operation? = some op) :
    Clause.Encodes ⟨op, i.address⟩ i := by
  constructor
  · have hcode := operation?_eq_some_iff.1 h
    cases op <;> exact hcode
  · have hlt := i.operand.isLt
    show (i.operand.toNat : Int) = i.operand.toNat % 2 ^ 28
    omega

end Instruction

/-! ## Reading listings -/

namespace Statement

open Text

theorem ofLine_render (number : Nat) (i : Instruction) :
    ofLine number i.render.toList =
      (ofWords number i.render.toList i.mnemonic.toList i.address.repr.toList).map some := by
  have h := ofLine_of_two_words number blanks_nil (Operation.isWord_mnemonicOfCode i.opcode.toNat)
    isGap_space i.numeral_address.isWord blanks_nil (Operation.head?_mnemonicOfCode_ne _)
  rw [List.append_nil, List.nil_append, List.append_assoc] at h
  rw [Instruction.toList_render]
  exact h

/-- A line with a known mnemonic is read as the instruction that it lists. -/
theorem ofLine_render_of_some (number : Nat) {i : Instruction} {op : Operation}
    (h : i.operation? = some op) :
    ∃ s, ofLine number i.render.toList = .ok (some s) ∧ s.instruction = i := by
  have hmnemonic : op.mnemonic.toList = i.mnemonic.toList := by
    rw [Instruction.mnemonic, ← Operation.ofCode?_eq_some_iff.1 h, Operation.mnemonicOfCode_code]
  refine ⟨Clause.statement ⟨op, i.address⟩, ?_, ?_⟩
  · rw [ofLine_render, ofWords_eq_ok_iff.2 ⟨op, i.address, hmnemonic, i.numeral_address, rfl⟩]
    rfl
  · exact Clause.encodes_iff.1 (Instruction.encodes_of_operation? h)

/-- A line with an unknown opcode is refused for its first word. -/
theorem ofLine_render_of_none (number : Nat) {i : Instruction} (h : i.operation? = none) :
    ofLine number i.render.toList = .error (.unknownMnemonic (some number) i.mnemonic) := by
  have hmnemonic : Operation.ofMnemonic? i.mnemonic = none := by
    rw [Instruction.mnemonic, Operation.ofMnemonic?_mnemonicOfCode]
    exact h
  rw [ofLine_render, ofWords, String.ofList_toList, hmnemonic]
  rfl

end Statement

namespace Source

open Text

theorem lines_disassemble (p : Program) :
    lines (disassemble p).toList = p.map fun i => i.render.toList := by
  have hclosed : (disassemble p).toList =
      (p.map fun i => i.render.toList).flatMap (· ++ ['\n']) := by
    simp [disassemble, List.flatMap_map]
  rw [hclosed]
  apply lines_of_Lines
  apply lines_flatMap_newline
  intro line hline
  obtain ⟨i, -, rfl⟩ := List.mem_map.1 hline
  exact ⟨i.newline_not_mem_render, i.getLast?_render_ne⟩

/-- The statements of one text and then those of another one, unless one of them is refused. The
    first error is the one that counts. -/
def followedBy (first second : Except Error (List Statement)) : Except Error (List Statement) :=
  match first with
  | .error e => .error e
  | .ok found => second.map (found ++ ·)

theorem followedBy_ok_nil (x : Except Error (List Statement)) : followedBy (.ok []) x = x := by
  cases x <;> rfl

theorem followedBy_assoc (x y z : Except Error (List Statement)) :
    followedBy (followedBy x y) z = followedBy x (followedBy y z) := by
  cases x with
  | error e => rfl
  | ok found =>
    cases y with
    | error e => rfl
    | ok middle =>
      cases z with
      | error e => rfl
      | ok later => simp [followedBy, Except.map]

theorem statementsFrom_cons (number : Nat) (line : List Char) (later : List (List Char)) :
    statementsFrom number (line :: later) =
      followedBy ((Statement.ofLine number line).map Option.toList)
        (statementsFrom (number + 1) later) := by
  rw [statementsFrom]
  cases Statement.ofLine number line <;> rfl

/-- Lines are read front to back, and the first one that is refused refuses them all. -/
theorem statementsFrom_append (number : Nat) (front back : List (List Char)) :
    statementsFrom number (front ++ back) =
      followedBy (statementsFrom number front) (statementsFrom (number + front.length) back) := by
  induction front generalizing number with
  | nil => exact (followedBy_ok_nil _).symm
  | cons line front ih =>
    have hnumber : number + (front.length + 1) = number + 1 + front.length := by omega
    rw [List.cons_append, statementsFrom_cons, statementsFrom_cons, ih, followedBy_assoc,
      List.length_cons, hnumber]

/-- A listing without unknown opcodes is read as its program, whatever the number of its first
    line is. -/
theorem statementsFrom_render_of_known (number : Nat) {p : Program}
    (h : ∀ i ∈ p, i.operation? ≠ none) :
    ∃ found, statementsFrom number (p.map fun i => i.render.toList) = .ok found ∧
      found.map Statement.instruction = p := by
  induction p generalizing number with
  | nil => exact ⟨[], rfl, rfl⟩
  | cons i p ih =>
    rw [List.forall_mem_cons] at h
    obtain ⟨op, hop⟩ := Option.ne_none_iff_exists'.1 h.1
    obtain ⟨s, hline, hs⟩ := Statement.ofLine_render_of_some number hop
    obtain ⟨found, hfound, hp⟩ := ih (number + 1) h.2
    refine ⟨s :: found, ?_, ?_⟩
    · rw [List.map_cons, statementsFrom, hline]
      simp only [hfound]
      rfl
    · rw [List.map_cons, hs, hp]

theorem assemble_disassemble_of_known {p : Program} (h : ∀ i ∈ p, i.operation? ≠ none) :
    assemble (disassemble p) = .ok p := by
  obtain ⟨found, hfound, hp⟩ := statementsFrom_render_of_known 1 h
  rw [assemble, statements, lines_disassemble, hfound, ← hp]
  rfl

/-- The first unknown opcode refuses the listing, at its own line. -/
theorem assemble_disassemble_of_unknown {front back : Program} {i : Instruction}
    (hfront : ∀ j ∈ front, j.operation? ≠ none) (hi : i.operation? = none) :
    assemble (disassemble (front ++ i :: back)) =
      .error (.unknownMnemonic (some (front.length + 1)) i.mnemonic) := by
  obtain ⟨found, hfound, -⟩ := statementsFrom_render_of_known 1 hfront
  rw [assemble, statements, lines_disassemble, List.map_append, statementsFrom_append, hfound,
    List.map_cons, statementsFrom, Statement.ofLine_render_of_none _ hi, List.length_map,
    Nat.add_comm]
  rfl

/-- A program with an unknown opcode has a first one. -/
theorem exists_first_unknown {p : Program} (h : ∃ i ∈ p, i.operation? = none) :
    ∃ front i back, p = front ++ i :: back ∧ (∀ j ∈ front, j.operation? ≠ none) ∧
      i.operation? = none := by
  induction p with
  | nil => simp at h
  | cons i p ih =>
    by_cases hi : i.operation? = none
    · exact ⟨[], i, p, rfl, by simp, hi⟩
    · have hlater : ∃ j ∈ p, j.operation? = none := by
        simpa [hi] using h
      obtain ⟨front, j, back, rfl, hfront, hj⟩ := ih hlater
      exact ⟨i :: front, j, back, rfl, List.forall_mem_cons.2 ⟨hi, hfront⟩, hj⟩

/-- No source asks for an unknown opcode. -/
theorem operation?_ne_none_of_assemble {source : String} {p : Program}
    (h : assemble source = .ok p) : ∀ i ∈ p, i.operation? ≠ none := by
  obtain ⟨readings, -, rfl⟩ := assemble_eq_ok_iff.1 h
  intro i hi
  obtain ⟨c, -, rfl⟩ := List.mem_map.1 hi
  simp

theorem disassemble_injective {p q : Program} (h : disassemble p = disassemble q) : p = q := by
  have hlines := lines_disassemble p
  rw [h, lines_disassemble] at hlines
  refine (List.map_injective_iff.2 ?_ hlines).symm
  intro i j hij
  exact Instruction.render_injective (String.toList_inj.1 hij)

/-- **Listing and assembling invert each other.** A listing assembles to its program if and only if
    all opcodes are known; if not, it is refused at the line of the first unknown opcode. So the
    listing of an assembled program is a normal form of its source. Whatever opcodes they have, no
    two programs have the same listing. -/
theorem assemble_disassemble :
    (∀ p : Program, assemble (disassemble p) = .ok p ↔ ∀ i ∈ p, i.operation? ≠ none) ∧
    (∀ p : Program, (∃ i ∈ p, i.operation? = none) →
      ∃ front i back, p = front ++ i :: back ∧ (∀ j ∈ front, j.operation? ≠ none) ∧
        i.operation? = none ∧
        assemble (disassemble p) = .error (.unknownMnemonic (some (front.length + 1))
          (String.join ["unknown(", i.opcode.toNat.repr, ")"]))) ∧
    (∀ (source : String) (p : Program), assemble source = .ok p →
      assemble (disassemble p) = .ok p ∧
        (assemble (disassemble p)).map disassemble = .ok (disassemble p)) ∧
    Function.Injective disassemble := by
  refine ⟨fun p => ⟨operation?_ne_none_of_assemble, assemble_disassemble_of_known⟩, ?_, ?_, ?_⟩
  · intro p hunknown
    obtain ⟨front, i, back, rfl, hfront, hi⟩ := exists_first_unknown hunknown
    refine ⟨front, i, back, rfl, hfront, hi, ?_⟩
    rw [assemble_disassemble_of_unknown hfront hi, Instruction.mnemonic,
      Operation.mnemonicOfCode_of_none hi]
  · intro source p hsource
    have hlisting := assemble_disassemble_of_known (operation?_ne_none_of_assemble hsource)
    rw [hlisting]
    exact ⟨rfl, rfl⟩
  · intro p q
    exact disassemble_injective

end Source

end Accumulator
