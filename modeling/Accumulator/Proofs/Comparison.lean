import Accumulator.Proofs.Compilation
import Accumulator.Proofs.Joining
set_option autoImplicit false

/-! # A program that compares vectors

The machine cannot jump, so a program that is to go over two vectors is written out for their
length. It has three phases: the first vector is put into the cells from zero on, the second one
into the cells behind it, and then each cell of the second one is replaced by the outcome of
comparing it with its counterpart (`comparison`).

Each phase is a loop that was unrolled, and each has a lemma for one round and one for all of them.
While a vector is put down, the cells in front are settled and those behind are still those of an
older content (`effects_fill`). While the vectors are compared, each of them has a part that is done
and a part that is to come (`effects_compareCells`); a cell that was replaced is in the part that is
done, so no comparison meets an outcome in place of an element.

The rounds are followed on stores of integers, where clauses have their effect, and a machine that
runs the assembled program does the same (`run_comparison`). The main statement, `vectors_compared`,
leads from the source text of the program to the cells of a machine that has run it. -/

namespace Accumulator

/-! ## Clauses in writing -/

namespace Clause

/-- The clause as a line of source. -/
def render (c : Clause) : String := String.join [c.operation.mnemonic, " ", c.value.repr]

theorem toList_render (c : Clause) :
    c.render.toList = c.operation.mnemonic.toList ++ ([' '] ++ c.value.repr.toList) := by
  simp [render]

end Clause

namespace Source

open Text

/-- Clauses written as source, one a line, with no newline at the end. -/
def ofClauses (clauses : List Clause) : String := "\n".intercalate (clauses.map Clause.render)

/-- The line of a clause is a line of the grammar, and holds the clause. -/
theorem lineReads_render (c : Clause) : LineReads c.render.toList (some c) := by
  have hline : LineReads _ (some c) :=
    .clause c.operation blanks_nil isGap_space (numeral_repr c.value) blanks_nil
  rw [List.nil_append, List.append_nil, List.append_assoc] at hline
  rwa [c.toList_render]

theorem lines_ofClauses (clauses : List Clause) :
    Lines (ofClauses clauses).toList (clauses.map fun c => c.render.toList) := by
  have htext : (ofClauses clauses).toList =
      ['\n'].intercalate (clauses.map fun c => c.render.toList) := by
    rw [ofClauses, String.toList_intercalate, List.map_map]
    rfl
  rw [htext]
  apply lines_intercalate_newline
  intro line hline
  obtain ⟨c, -, rfl⟩ := List.mem_map.1 hline
  have hfirst := c.operation.isWord_mnemonic
  have hsecond := (numeral_repr c.value).isWord
  rw [c.toList_render]
  exact ⟨by simp, newline_not_mem_pair hfirst hsecond, getLast?_pair_ne _ hsecond⟩

/-- Clauses are read as they are written. -/
theorem assemble_ofClauses (clauses : List Clause) :
    assemble (ofClauses clauses) = .ok (Clause.program clauses) := by
  refine assemble_eq_ok_iff.2 ⟨clauses.map some, ?_, ?_⟩
  · rw [lines_of_Lines (lines_ofClauses clauses), List.forall₂_map_left_iff,
      List.forall₂_map_right_iff, List.forall₂_same]
    exact fun c _ => lineReads_render c
  · simp [Clause.program, List.reduceOption]

end Source

/-! ## The program -/

namespace Clause

/-- Puts values into the cells from an address on. -/
def fill (address : Nat) : List Int → List Clause
  | [] => []
  | value :: values =>
    ⟨.loadConstant, value⟩ :: ⟨.store, address⟩ :: fill (address + 1) values

/-- Compares a number of cells from one address on with as many cells from another one on, and
    replaces the latter by the outcomes. -/
def compareCells (first second : Nat) : Nat → List Clause
  | 0 => []
  | count + 1 =>
    ⟨.loadMemory, first⟩ :: ⟨.equal, second⟩ :: ⟨.store, second⟩ ::
      compareCells (first + 1) (second + 1) count

/-- Compares two vectors: puts down the first one, and the second one behind it, and replaces the
    second one by the outcomes. -/
def comparison (v w : List Int) : List Clause :=
  fill 0 v ++ fill v.length w ++ compareCells 0 v.length v.length

/-- One if two integers are equal, and zero if they are not. -/
def outcome (a b : Int) : Int := if a = b then 1 else 0

/-- One where two vectors are equal, and zero where they are not. -/
def outcomes (v w : List Int) : List Int := List.zipWith outcome v w

@[simp]
theorem length_fill (address : Nat) (values : List Int) :
    (fill address values).length = 2 * values.length := by
  induction values generalizing address with
  | nil => rfl
  | cons value values ih =>
    simp only [fill, List.length_cons, ih]
    omega

@[simp]
theorem length_compareCells (first second count : Nat) :
    (compareCells first second count).length = 3 * count := by
  induction count generalizing first second with
  | zero => rfl
  | succ count ih =>
    simp only [compareCells, List.length_cons, ih]
    omega

theorem length_comparison {v w : List Int} (h : w.length = v.length) :
    (comparison v w).length = 7 * v.length := by
  simp only [comparison, List.length_append, length_fill, length_compareCells]
  omega

/-! ## What clauses do -/

theorem operand_natCast (op : Operation) {n : Nat} (h : n < 2 ^ 28) : operand ⟨op, n⟩ = n := by
  show ((n : Int) % 2 ^ 28).toNat = n
  omega

section

variable {front back : List Int} {cell accumulator : Int}

theorem effect_loadConstant {value : Int} (h : 0 ≤ value ∧ value < 2 ^ 28) (s : Store) :
    effect ⟨.loadConstant, value⟩ s = some { s with accumulator := value } := by
  have hoperand : ((operand ⟨.loadConstant, value⟩ : Nat) : Int) = value := by
    show (((value % 2 ^ 28).toNat : Nat) : Int) = value
    omega
  simp only [effect, hoperand]

theorem effect_loadMemory (h : front.length < 2 ^ 28) :
    effect ⟨.loadMemory, front.length⟩ ⟨front ++ cell :: back, accumulator⟩ =
      some ⟨front ++ cell :: back, cell⟩ := by
  simp [effect, operand_natCast _ h]

theorem effect_equal (h : front.length < 2 ^ 28) :
    effect ⟨.equal, front.length⟩ ⟨front ++ cell :: back, accumulator⟩ =
      some ⟨front ++ cell :: back, outcome accumulator cell⟩ := by
  simp [effect, outcome, operand_natCast _ h]

theorem effect_store (h : front.length < 2 ^ 28) :
    effect ⟨.store, front.length⟩ ⟨front ++ cell :: back, accumulator⟩ =
      some ⟨front ++ accumulator :: back, accumulator⟩ := by
  simp [effect, operand_natCast _ h]

end

theorem effects_cons_of_effect {c : Clause} {s next : Store} (h : c.effect s = some next)
    (rest : List Clause) : effects (c :: rest) s = effects rest next := by
  rw [effects, h, Option.bind_some]

theorem effects_append (clauses later : List Clause) (s : Store) :
    effects (clauses ++ later) s = (effects clauses s).bind (effects later) := by
  induction clauses generalizing s with
  | nil => rfl
  | cons c rest ih =>
    rw [List.cons_append, effects, effects, Option.bind_assoc]
    exact Option.bind_congr fun next _ => ih next

theorem effects_append_of_effects {clauses : List Clause} {s next : Store}
    (h : effects clauses s = some next) (later : List Clause) :
    effects (clauses ++ later) s = effects later next := by
  rw [effects_append, h, Option.bind_some]

/-! ## What the phases do -/

/-- A value is put down in the place of a cell. -/
theorem effects_put {front back : List Int} {cell value : Int} {address : Nat}
    (haddress : front.length = address) (hlt : address < 2 ^ 28)
    (hvalue : 0 ≤ value ∧ value < 2 ^ 28) (accumulator : Int) (rest : List Clause) :
    effects (⟨.loadConstant, value⟩ :: ⟨.store, address⟩ :: rest)
        ⟨front ++ cell :: back, accumulator⟩ =
      effects rest ⟨front ++ value :: back, value⟩ := by
  subst haddress
  rw [effects_cons_of_effect (effect_loadConstant hvalue _),
    effects_cons_of_effect (effect_store hlt)]

/-- Values that are put down take the places of as many cells. -/
theorem effects_fill (front : List Int) {values old : List Int} {address : Nat}
    (haddress : front.length = address) (hlength : values.length ≤ old.length)
    (hvalues : ∀ value ∈ values, 0 ≤ value ∧ value < 2 ^ 28)
    (hlast : address + values.length ≤ 2 ^ 28) (accumulator : Int) :
    ∃ last, effects (fill address values) ⟨front ++ old, accumulator⟩ =
      some ⟨front ++ values ++ old.drop values.length, last⟩ := by
  induction values generalizing front old address accumulator with
  | nil => exact ⟨accumulator, by simp [fill, effects]⟩
  | cons value values ih =>
    rw [List.forall_mem_cons] at hvalues
    rw [List.length_cons] at hlength hlast
    cases old with
    | nil => simp at hlength
    | cons cell old =>
      -- to the rest of the loop, the value that was put down is one more cell in front
      have hnext : (front ++ [value]).length = address + 1 := by simp [haddress]
      obtain ⟨last, hrest⟩ :=
        ih (front ++ [value]) hnext (by simpa using hlength) hvalues.2 (by omega) value
      refine ⟨last, ?_⟩
      rw [fill, effects_put haddress (by omega) hvalues.1]
      simpa using hrest

/-- The second one of two cells is replaced by the outcome of their comparison. -/
theorem effects_match {front inner back : List Int} {a b : Int} {first second : Nat}
    (hfirst : front.length = first) (hsecond : (front ++ a :: inner).length = second)
    (hlt : second < 2 ^ 28) (accumulator : Int) (rest : List Clause) :
    effects (⟨.loadMemory, first⟩ :: ⟨.equal, second⟩ :: ⟨.store, second⟩ :: rest)
        ⟨front ++ a :: inner ++ b :: back, accumulator⟩ =
      effects rest ⟨front ++ a :: inner ++ outcome a b :: back, outcome a b⟩ := by
  subst hfirst hsecond
  have hload : effect ⟨.loadMemory, front.length⟩
      ⟨front ++ a :: inner ++ b :: back, accumulator⟩ =
        some ⟨front ++ a :: inner ++ b :: back, a⟩ := by
    rw [List.append_assoc, List.cons_append]
    rw [List.length_append] at hlt
    exact effect_loadMemory (by omega)
  rw [effects_cons_of_effect hload, effects_cons_of_effect (effect_equal hlt),
    effects_cons_of_effect (effect_store hlt)]

/-- Cells that are compared stay as they are, and those that they are compared with are replaced by
    the outcomes. -/
theorem effects_compareCells (front middle : List Int) {v w back : List Int} {first second : Nat}
    (hfirst : front.length = first) (hsecond : (front ++ v ++ middle).length = second)
    (hlength : w.length = v.length) (hlast : second + w.length ≤ 2 ^ 28) (accumulator : Int) :
    ∃ last, effects (compareCells first second v.length)
        ⟨front ++ v ++ middle ++ w ++ back, accumulator⟩ =
      some ⟨front ++ v ++ middle ++ outcomes v w ++ back, last⟩ := by
  induction v generalizing front middle w first second accumulator with
  | nil =>
    obtain rfl := List.length_eq_zero_iff.1 hlength
    exact ⟨accumulator, rfl⟩
  | cons a v ih =>
    cases w with
    | nil => simp at hlength
    | cons b w =>
      simp only [List.length_append, List.length_cons] at hsecond hlast
      -- to the rest of the loop, what was compared is one more cell in front of either vector
      have hnext : (front ++ [a]).length = first + 1 := by simp [hfirst]
      have hafter : (front ++ [a] ++ v ++ (middle ++ [outcome a b])).length = second + 1 := by
        simp only [List.length_append, List.length_singleton]
        omega
      obtain ⟨last, hrest⟩ := ih (front ++ [a]) (middle ++ [outcome a b]) hnext hafter
        (by simpa using hlength) (by omega) (outcome a b)
      refine ⟨last, ?_⟩
      have hmemory : front ++ a :: v ++ middle ++ b :: w ++ back =
          front ++ a :: (v ++ middle) ++ b :: (w ++ back) := by simp
      have hinner : (front ++ a :: (v ++ middle)).length = second := by
        simp only [List.length_append, List.length_cons]
        omega
      rw [List.length_cons, compareCells, hmemory, effects_match hfirst hinner (by omega)]
      simpa [outcomes] using hrest

/-- The program leaves the first vector, behind it the outcomes, and what was behind both of them
    before. -/
theorem effects_comparison {v w cells : List Int} (hlength : w.length = v.length)
    (hvalues : ∀ value ∈ v ++ w, 0 ≤ value ∧ value < 2 ^ 28) (haddresses : 2 * v.length ≤ 2 ^ 28)
    (hcells : 2 * v.length ≤ cells.length) (accumulator : Int) :
    ∃ last, effects (comparison v w) ⟨cells, accumulator⟩ =
      some ⟨v ++ outcomes v w ++ cells.drop (2 * v.length), last⟩ := by
  rw [List.forall_mem_append] at hvalues
  obtain ⟨afterFirst, hfirst⟩ : ∃ last, effects (fill 0 v) ⟨cells, accumulator⟩ =
      some ⟨v ++ cells.drop v.length, last⟩ :=
    effects_fill [] List.length_nil (by omega) hvalues.1 (by omega) accumulator
  have hdrop : (cells.drop v.length).drop w.length = cells.drop (2 * v.length) := by
    rw [List.drop_drop, hlength, Nat.two_mul]
  obtain ⟨afterSecond, hsecond⟩ : ∃ last,
      effects (fill v.length w) ⟨v ++ cells.drop v.length, afterFirst⟩ =
        some ⟨v ++ w ++ cells.drop (2 * v.length), last⟩ := by
    rw [← hdrop]
    exact effects_fill v rfl (by rw [List.length_drop]; omega) hvalues.2 (by omega) afterFirst
  have hbehind : ([] ++ v ++ []).length = v.length := by simp
  obtain ⟨last, hcompare⟩ :=
    effects_compareCells [] [] List.length_nil hbehind hlength (by omega) afterSecond
  refine ⟨last, ?_⟩
  rw [comparison, List.append_assoc, effects_append_of_effects hfirst,
    effects_append_of_effects hsecond]
  simpa using hcompare

end Clause

/-! ## Vectors on a machine -/

namespace Machine

/-- A machine that has room for both vectors runs the program to its end, and its cells behind them
    stay as they are. -/
theorem run_comparison {m : Machine} {v w : List Int} (hlength : w.length = v.length)
    (hvalues : ∀ value ∈ v ++ w, 0 ≤ value ∧ value < 2 ^ 28) (haddresses : 2 * v.length ≤ 2 ^ 28)
    (hmemory : 2 * v.length ≤ m.memory.size) :
    (m.run (Clause.program (Clause.comparison v w))).result = .ok () ∧
      (m.run (Clause.program (Clause.comparison v w))).machine.executed =
        m.executed + 7 * v.length ∧
      (m.run (Clause.program (Clause.comparison v w))).machine.store.memory =
        v ++ Clause.outcomes v w ++ m.store.memory.drop (2 * v.length) := by
  rw [← length_store] at hmemory
  obtain ⟨last, heffects⟩ :=
    Clause.effects_comparison hlength hvalues haddresses hmemory m.store.accumulator
  obtain ⟨hresult, hstore, hexecuted, -⟩ := run_of_effects heffects
  rw [Clause.length_comparison hlength] at hexecuted
  exact ⟨hresult, hexecuted, by rw [hstore]⟩

@[simp]
theorem memory_store_fresh (config : Config) :
    (fresh config).store.memory = List.replicate config.memorySize 0 := by
  simp [fresh, store]

theorem getElem?_eq_zero_of_store {m : Machine} {address : Nat}
    (h : m.store.memory[address]? = some 0) : m.memory[address]? = some 0 := by
  obtain ⟨cell, hcell, hzero⟩ := getElem?_store_eq_some h
  rw [hcell, Int64.toInt_inj.1 (hzero.trans Int64.toInt_zero.symm)]

/-- **Vectors are compared element by element.** The source that is written for two vectors of one
    length assembles, with a newline at its end or without. Its program runs to its end on a machine
    of zeros that has room for both vectors, and it completes seven instructions for each element.
    The first vector is then in the memory, behind it there is one for each element in which the
    vectors are equal and zero for each other one, and all further cells are zero. -/
theorem vectors_compared (v w : List Int) (hlength : w.length = v.length)
    (hvalues : ∀ value ∈ v ++ w, 0 ≤ value ∧ value < 2 ^ 28) (config : Config)
    (hmemory : 2 * v.length ≤ config.memorySize) (haddresses : 2 * v.length ≤ 2 ^ 28) :
    ∃ p, Source.assemble (Source.ofClauses (Clause.comparison v w)) = .ok p ∧
      Source.assemble (Source.ofClauses (Clause.comparison v w) ++ "\n") = .ok p ∧
      ((fresh config).run p).result = .ok () ∧
      ((fresh config).run p).machine.executed = 7 * v.length ∧
      (((fresh config).run p).machine.cells ⟨0, UInt64.ofNat (2 * v.length)⟩).map Int64.toInt =
        v ++ List.zipWith (fun a b => if a = b then 1 else 0) v w ∧
      ∀ address, 2 * v.length ≤ address → address < config.memorySize →
        ((fresh config).run p).machine.memory[address]? = some 0 := by
  have hsize : 2 * v.length ≤ (fresh config).memory.size := by simpa [fresh] using hmemory
  obtain ⟨hresult, hexecuted, hstore⟩ := run_comparison hlength hvalues haddresses hsize
  rw [memory_store_fresh, List.drop_replicate] at hstore
  have hassemble := Source.assemble_ofClauses (Clause.comparison v w)
  have hfilled : (v ++ Clause.outcomes v w).length = 2 * v.length := by
    rw [List.length_append, Clause.outcomes, List.length_zipWith, hlength]
    omega
  refine ⟨_, hassemble, (Source.assemble_newline _).trans hassemble, hresult, ?_, ?_, ?_⟩
  · rw [hexecuted]
    exact Nat.zero_add _
  · have hstop : (UInt64.ofNat (2 * v.length)).toNat = 2 * v.length :=
      UInt64.toNat_ofNat_of_lt' (Nat.lt_of_le_of_lt haddresses (by decide))
    rw [map_toInt_cells, Store.select, hstore, hstop, List.take_left' hfilled]
    rfl
  · intro address hbehind hinside
    apply getElem?_eq_zero_of_store
    rw [hstore, List.getElem?_append_right (by omega), hfilled, List.getElem?_replicate,
      if_pos (by omega)]

/-- The second elements are the largest constant and the smallest one, and the machine has a cell to
    spare. -/
theorem vectors_compared_largest_constant :
    (∀ value ∈ [5, 268435455] ++ [5, 0], (0 : Int) ≤ value ∧ value < 2 ^ 28) ∧
      ∃ p, Source.assemble ("ldc 5\nst 0\nldc 268435455\nst 1\nldc 5\nst 2\nldc 0\nst 3\n" ++
          "ldr 0\neq 2\nst 2\nldr 1\neq 3\nst 3") = .ok p ∧
        ((fresh ⟨5, .strict⟩).run p).result = .ok () ∧
        ((fresh ⟨5, .strict⟩).run p).machine.executed = 14 ∧
        (((fresh ⟨5, .strict⟩).run p).machine.cells ⟨0, 4⟩).map Int64.toInt =
          [5, 268435455, 1, 0] ∧
        ((fresh ⟨5, .strict⟩).run p).machine.memory[4]? = some 0 := by
  have hvalues : ∀ value ∈ [5, 268435455] ++ [5, 0], (0 : Int) ≤ value ∧ value < 2 ^ 28 := by
    decide
  have htext : Source.ofClauses (Clause.comparison [5, 268435455] [5, 0]) =
      "ldc 5\nst 0\nldc 268435455\nst 1\nldc 5\nst 2\nldc 0\nst 3\n" ++
        "ldr 0\neq 2\nst 2\nldr 1\neq 3\nst 3" := by
    decide +kernel
  obtain ⟨p, hassemble, -, hresult, hexecuted, hcells, hrest⟩ :=
    vectors_compared [5, 268435455] [5, 0] rfl hvalues ⟨5, .strict⟩ (by decide) (by decide)
  rw [htext] at hassemble
  exact ⟨hvalues, p, hassemble, hresult, hexecuted, hcells, hrest 4 (by decide) (by decide)⟩

end Machine

end Accumulator
