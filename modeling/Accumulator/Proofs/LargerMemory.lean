import Accumulator.Proofs.Compilation
import Accumulator.Proofs.Liveness
set_option autoImplicit false

/-! # Running in a larger memory

A machine stands in a larger one if the two differ in nothing but cells that only the larger one has
(`EmbedsIn`). A program that the smaller machine completes uses none of these, so they have no
influence on it and it has none on them, and the larger machine completes it in the same way
(`run_of_embedsIn`). A larger memory can only make more of a program run: what stops the smaller
machine at an unknown opcode stops the larger one there too, but an address outside the one memory
may lie inside the other.

The lemmas carry over what is known of two machines that agree on live cells: here it is the
addresses of the smaller memory that are known, and a completed program can have no other live
cells. -/

namespace Accumulator

/-! ## What the smaller machine can carry out -/

namespace Instruction

variable {i : Instruction} {size larger : Nat}

theorem Executable.mono (h : i.Executable size) (hle : size ≤ larger) : i.Executable larger :=
  h.imp_right fun hmemory => ⟨hmemory.1, Nat.lt_of_lt_of_le hmemory.2 hle⟩

/-- The fault of an unknown opcode has nothing to do with the memory. -/
theorem fault_of_unknownOpcode {position opcode place : Nat}
    (h : i.fault size position = .unknownOpcode opcode place) (other : Nat) :
    ¬ i.Executable other ∧ i.fault other position = .unknownOpcode opcode place := by
  rw [fault] at h ⊢
  by_cases hknown : i.opcode = 2#4 ∨ i.UsesMemory
  · simp [hknown] at h
  · rw [if_neg hknown] at h ⊢
    exact ⟨fun hexecutable => hknown (hexecutable.imp_right And.left), h⟩

theorem position_of_outOfBounds {position address bound place : Nat}
    (h : i.fault size position = .outOfBounds address bound place) : place = position := by
  rw [fault] at h
  split at h
  · exact ((Error.outOfBounds.injEq ..).mp h).2.2.symm
  · simp at h

end Instruction

namespace Machine

variable {small large : Machine} {p : Program}

/-- A program that runs to its end uses no address outside the memory. -/
theorem lt_of_uses {m : Machine} {address : Nat} (h : (m.run p).result = .ok ())
    (huses : p.Reads address ∨ p.Writes address) : address < m.memory.size := by
  have hlt : ∀ i ∈ p, i.UsesMemory → i.address < m.memory.size := fun i hmem =>
    (executable_of_run h i hmem).address_lt
  rcases huses with ⟨i, hmem, hi⟩ | ⟨i, hmem, hi⟩
  · exact hi.2 ▸ hlt i hmem hi.usesMemory
  · exact hi.2 ▸ hlt i hmem hi.usesMemory

/-! ## A machine inside a larger one -/

/-- The larger machine stands as the smaller one does, as far as the memory of that one goes. -/
structure EmbedsIn (small large : Machine) : Prop where
  size_le : small.memory.size ≤ large.memory.size
  getElem?_eq : ∀ address, address < small.memory.size →
    large.memory[address]? = small.memory[address]?
  accumulator_eq : large.accumulator = small.accumulator
  executed_eq : large.executed = small.executed
  lastAccess_eq : large.lastAccess = small.lastAccess

/-- The larger machine stands as the smaller one does, and the cells beyond the memory of that one
    are still those that it started with. -/
structure Follows (small large start : Machine) : Prop extends EmbedsIn small large where
  beyond_eq : ∀ address, small.memory.size ≤ address →
    large.memory[address]? = start.memory[address]?

/-- A larger machine follows a smaller one through a program that this one completes. -/
theorem run_of_embedsIn (h : small.EmbedsIn large) (hok : (small.run p).result = .ok ()) :
    (large.run p).result = .ok () ∧ Follows (small.run p).machine (large.run p).machine large := by
  have hexecutable := executable_of_run hok
  have hlarge := (run_of_executable fun i hi => (hexecutable i hi).mono h.size_le).1
  have hagree := agreeOn_of_run hok hlarge (.inl h.accumulator_eq) h.getElem?_eq
    fun _ haddress => lt_of_uses hok (.inl haddress.reads)
  have hsmall := (small.result_run_eq_ok_iff p).1 hok
  have hcompleted := (large.result_run_eq_ok_iff p).1 hlarge
  refine ⟨hlarge, ⟨?_, ?_, hagree.accumulator_eq, ?_, ?_⟩, ?_⟩
  · simpa using h.size_le
  · rw [size_run]
    exact fun address haddress => hagree.getElem?_eq address (.inl haddress)
  · rw [executed_run, executed_run, hsmall, hcompleted, h.executed_eq]
  · rw [lastAccess_run, lastAccess_run, hsmall, hcompleted, h.lastAccess_eq]
  · rw [size_run]
    exact fun address haddress => getElem?_run fun hwrites =>
      Nat.not_lt_of_le haddress (lt_of_uses hok (.inr hwrites))

/-! ## Windows -/

theorem cells_of_embedsIn (h : small.EmbedsIn large) {w : Window}
    (hw : w.stop.toNat ≤ small.memory.size) : large.cells w = small.cells w := by
  rw [cells_eq_drop_take, cells_eq_drop_take]
  refine congrArg (List.drop _) (List.ext_getElem? fun n => ?_)
  rw [List.getElem?_take, List.getElem?_take, Array.getElem?_toList, Array.getElem?_toList]
  by_cases hn : n < w.stop.toNat
  · rw [if_pos hn, if_pos hn]
    exact h.getElem?_eq n (by omega)
  · rw [if_neg hn, if_neg hn]

/-- A stream gives cells if its program runs to its end. -/
theorem exists_program_of_execute {m : Machine} {bytes : Bytes} {w : Window} {found : List Cell}
    (h : (m.execute bytes w).result = .ok found) :
    ∃ p, m.load bytes = .ok p ∧ (m.run p).result = .ok () ∧ (m.run p).machine.cells w = found := by
  rw [execute] at h
  cases hload : m.load bytes with
  | error e => simp [hload] at h
  | ok p =>
    simp only [hload] at h
    cases hresult : (m.run p).result with
    | error e =>
      rw [result_select_of_error hresult] at h
      simp at h
    | ok =>
      rw [result_select_of_ok hresult] at h
      exact ⟨p, rfl, hresult, Except.ok.inj h⟩

/-- **A larger memory never changes a working program.** A machine stands in a larger one. If the
    smaller machine completes a program, so does the larger one, and follows it. If the smaller one
    stops at an unknown opcode, the larger one stops there with the same error. If it stops at an
    address outside its memory, the larger one completes all that comes before. In each case the
    accumulator, the count, the address used last and all cells of the smaller memory are the same
    on both machines afterwards, and the other cells are untouched. So a stream that gives the cells
    of a window on the smaller machine, all of them inside its memory, gives the same cells on the
    larger one. -/
theorem run_in_larger_memory (h : small.EmbedsIn large) :
    (∀ p : Program, (small.run p).result = .ok () →
      (large.run p).result = .ok () ∧
        Follows (small.run p).machine (large.run p).machine large) ∧
    (∀ (p : Program) (opcode position : Nat),
      (small.run p).result = .error (.unknownOpcode opcode position) →
      (large.run p).result = .error (.unknownOpcode opcode position) ∧
        Follows (small.run p).machine (large.run p).machine large) ∧
    (∀ (p : Program) (address size position : Nat),
      (small.run p).result = .error (.outOfBounds address size position) →
      ∃ k < p.length, position = small.executed + k ∧
        small.run (p.take k) = ⟨.ok (), (small.run p).machine⟩ ∧
        (large.run (p.take k)).result = .ok () ∧
        Follows (small.run p).machine (large.run (p.take k)).machine large) ∧
    ∀ (bytes : Bytes) (w : Window) (found : List Cell),
      small.config.truncation = large.config.truncation → w.stop.toNat ≤ small.memory.size →
      (small.execute bytes w).result = .ok found → (large.execute bytes w).result = .ok found := by
  refine ⟨fun p => run_of_embedsIn h, ?_, ?_, ?_⟩
  · intro p opcode position hfails
    obtain ⟨front, i, back, rfl, hfront, -, hfault⟩ := exists_split_of_error hfails
    obtain ⟨hlarge, hfollows⟩ := run_of_embedsIn h (by rw [hfront])
    obtain ⟨hnot, hsame⟩ := Instruction.fault_of_unknownOpcode hfault.symm large.memory.size
    rw [run_of_not_executable back (executable_of_run hlarge) hnot, h.executed_eq, hsame]
    rw [hfront] at hfollows
    exact ⟨rfl, hfollows⟩
  · intro p address size position hfails
    obtain ⟨front, i, back, rfl, hfront, -, hfault⟩ := exists_split_of_error hfails
    obtain ⟨hlarge, hfollows⟩ := run_of_embedsIn h (by rw [hfront])
    rw [hfront] at hfollows
    have hposition := Instruction.position_of_outOfBounds hfault.symm
    refine ⟨front.length, by simp, hposition, ?_⟩
    rw [List.take_left]
    exact ⟨hfront, hlarge, hfollows⟩
  · intro bytes w found htruncation hw hfound
    obtain ⟨p, hload, hok, hcells⟩ := exists_program_of_execute hfound
    obtain ⟨hlarge, hfollows⟩ := run_of_embedsIn h hok
    have hsame : large.load bytes = .ok p := by
      rwa [load, ← htruncation]
    rw [execute, hsame]
    show (select w (large.run p)).result = .ok found
    rw [result_select_of_ok hlarge, ← hcells]
    rw [← size_run small p] at hw
    rw [cells_of_embedsIn hfollows.toEmbedsIn hw]

/-- A memory grows by one cell, and the program stores to it. -/
theorem run_in_larger_memory_by_one :
    EmbedsIn ⟨⟨1, .silent⟩, #[4], 3, 2, none⟩ ⟨⟨2, .silent⟩, #[4, 7], 3, 2, none⟩ ∧
      (∃ k < 3, 4 = 2 + k ∧
        run ⟨⟨1, .silent⟩, #[4], 3, 2, none⟩ ([⟨2#4, 5#28⟩, ⟨11#4, 0#28⟩, ⟨11#4, 1#28⟩].take k) =
          ⟨.ok (), ⟨⟨1, .silent⟩, #[5], 5, 4, some 0⟩⟩ ∧
        (run ⟨⟨2, .silent⟩, #[4, 7], 3, 2, none⟩
          ([⟨2#4, 5#28⟩, ⟨11#4, 0#28⟩, ⟨11#4, 1#28⟩].take k)).result = .ok () ∧
        Follows ⟨⟨1, .silent⟩, #[5], 5, 4, some 0⟩
          (run ⟨⟨2, .silent⟩, #[4, 7], 3, 2, none⟩
            ([⟨2#4, 5#28⟩, ⟨11#4, 0#28⟩, ⟨11#4, 1#28⟩].take k)).machine
          ⟨⟨2, .silent⟩, #[4, 7], 3, 2, none⟩) ∧
      (execute ⟨⟨2, .silent⟩, #[4, 7], 3, 2, none⟩ [0x52, 0, 0, 0, 0x0B, 0, 0, 0] ⟨0, 1⟩).result =
        .ok [5] :=
  have hembeds : EmbedsIn ⟨⟨1, .silent⟩, #[4], 3, 2, none⟩ ⟨⟨2, .silent⟩, #[4, 7], 3, 2, none⟩ :=
    ⟨by decide, by decide, rfl, rfl, rfl⟩
  ⟨hembeds,
    (run_in_larger_memory hembeds).2.2.1 [⟨2#4, 5#28⟩, ⟨11#4, 0#28⟩, ⟨11#4, 1#28⟩] 1 1 4 rfl,
    (run_in_larger_memory hembeds).2.2.2 [0x52, 0, 0, 0, 0x0B, 0, 0, 0] ⟨0, 1⟩ [5] rfl
      (by decide) rfl⟩

end Machine

end Accumulator
