import Accumulator.Proofs.Cells
set_option autoImplicit false

/-! # Which cells matter to a program

What a program finds in a cell matters only if it reads the cell before it writes it. Such a cell is
*live* (`LiveIn`), and a run takes nothing but the live cells and the accumulator into account: two
machines that have these in common, and besides them the size of the memory and the count, cannot be
told apart by the program (`run_ignores_dead_cells`). A program that starts with a load does not
even look at the accumulator.

The relation that two such runs keep is `AgreeOn`. The set of addresses at which the memories agree
is part of it, because it grows: a store writes the same accumulator on both sides, and from then on
the cell may be read. -/

namespace Accumulator

/-! ## The accumulator -/

namespace Instruction

/-- Whether the instruction sets the accumulator whatever it was before. -/
def Loads (i : Instruction) : Prop :=
  i.operation? = some .loadConstant ∨ i.operation? = some .loadMemory

instance (i : Instruction) : Decidable i.Loads := inferInstanceAs (Decidable (_ ∨ _))

/-- The accumulator that an instruction leaves, by the one it finds and the cell at its address. -/
def accumulatorAfter (i : Instruction) (accumulator cell : Cell) : Cell :=
  match i.operation? with
  | some .loadConstant => Cell.ofOperand i.operand
  | some .loadMemory => cell
  | some .equal => if accumulator = cell then 1 else 0
  | some .store | none => accumulator

theorem Loads.not_writes {i : Instruction} {address : Nat} (h : i.Loads) :
    ¬ i.Writes address := by
  rintro ⟨hstore, -⟩
  rw [Loads, hstore] at h
  simp at h

theorem accumulatorAfter_congr {i : Instruction} {a b c d : Cell} (hacc : b = a ∨ i.Loads)
    (hcell : i.Reads i.address → d = c) : i.accumulatorAfter b d = i.accumulatorAfter a c := by
  rw [Loads] at hacc
  rw [Reads] at hcell
  unfold accumulatorAfter
  split
  · rfl
  · next hop => exact hcell ⟨.inl hop, rfl⟩
  · next hop =>
    obtain rfl := hcell ⟨.inr hop, rfl⟩
    obtain rfl : b = a := by simpa [hop] using hacc
    rfl
  · next hop => simpa [hop] using hacc
  · next hop => simpa [hop] using hacc

end Instruction

namespace Program

/-! ## Live cells -/

/-- Whether the program reads the cell at an address before it writes it. -/
def LiveIn (p : Program) (address : Nat) : Prop :=
  ∃ front i back, p = front ++ i :: back ∧ i.Reads address ∧ ¬ Writes front address

/-- Whether the program starts with an instruction that sets the accumulator whatever it was. -/
def StartsWithLoad (p : Program) : Prop := ∃ i rest, p = i :: rest ∧ i.Loads

variable {p q : Program} {i : Instruction} {address : Nat}

@[simp]
theorem not_liveIn_nil (address : Nat) : ¬ LiveIn [] address := by
  simp [LiveIn]

@[simp]
theorem liveIn_cons {rest : Program} :
    LiveIn (i :: rest) address ↔ i.Reads address ∨ ¬ i.Writes address ∧ rest.LiveIn address := by
  constructor
  · rintro ⟨front, j, back, hsplit, hj, hfront⟩
    rcases List.cons_eq_append_iff.1 hsplit with ⟨rfl, hhead⟩ | ⟨tail, rfl, rfl⟩
    · obtain ⟨rfl, rfl⟩ := List.cons_eq_cons.1 hhead
      exact .inl hj
    · rw [writes_cons, not_or] at hfront
      exact .inr ⟨hfront.1, tail, j, back, rfl, hj, hfront.2⟩
  · rintro (hi | ⟨hi, front, j, back, rfl, hj, hfront⟩)
    · exact ⟨[], i, rest, rfl, hi, not_writes_nil address⟩
    · refine ⟨i :: front, j, back, rfl, hj, ?_⟩
      rw [writes_cons, not_or]
      exact ⟨hi, hfront⟩

instance decidableLiveIn : (p : Program) → (address : Nat) → Decidable (p.LiveIn address)
  | [], address => .isFalse (not_liveIn_nil address)
  | _ :: rest, address =>
    have := decidableLiveIn rest address
    decidable_of_iff _ liveIn_cons.symm

theorem LiveIn.reads (h : p.LiveIn address) : p.Reads address := by
  obtain ⟨front, i, back, rfl, hi, -⟩ := h
  exact ⟨i, by simp, hi⟩

theorem LiveIn.of_isPrefix (h : p.LiveIn address) (hinitial : p <+: q) : q.LiveIn address := by
  obtain ⟨front, i, back, rfl, hi, hfront⟩ := h
  obtain ⟨more, rfl⟩ := hinitial
  exact ⟨front, i, back ++ more, by simp, hi, hfront⟩

/-- Only addresses that the program uses can be those of live cells. -/
theorem forall_liveIn_iff {property : Nat → Prop} :
    (∀ address, p.LiveIn address → property address) ↔
      ∀ i ∈ p, p.LiveIn i.address → property i.address := by
  constructor
  · intro h i _ hi
    exact h i.address hi
  · intro h address haddress
    obtain ⟨i, hmem, -, rfl⟩ := haddress.reads
    exact h i hmem haddress

end Program

namespace Machine

/-! ## Two machines side by side -/

/-- Two machines have the same accumulator, and the same cells at the addresses that are known. -/
structure AgreeOn (known : Nat → Prop) (m n : Machine) : Prop where
  accumulator_eq : n.accumulator = m.accumulator
  getElem?_eq : ∀ address, known address → n.memory[address]? = m.memory[address]?

variable {known : Nat → Prop} {m n next after : Machine} {i : Instruction} {p : Program}

theorem AgreeOn.mono {fewer : Nat → Prop} (h : AgreeOn known m n)
    (hfewer : ∀ address, fewer address → known address) : AgreeOn fewer m n :=
  ⟨h.accumulator_eq, fun address haddress => h.getElem?_eq address (hfewer address haddress)⟩

theorem accumulator_of_step (h : m.step i = .ok next) :
    next.accumulator = i.accumulatorAfter m.accumulator (m.memory[i.address]?.getD 0) := by
  unfold Instruction.accumulatorAfter
  cases completes_of_step h with
  | loadConstant hop => simp [hop]
  | loadMemory hop hcell => simp [hop, hcell]
  | equal hop hcell => simp [hop, hcell]
  | store hop hlt => simp [hop]

/-- Machines that agree on what an instruction reads agree after it, also on what it writes. -/
theorem agreeOn_of_step (hm : m.step i = .ok next) (hn : n.step i = .ok after)
    (hacc : n.accumulator = m.accumulator ∨ i.Loads)
    (hcells : ∀ address, known address → n.memory[address]? = m.memory[address]?)
    (hreads : ∀ address, i.Reads address → known address) :
    AgreeOn (fun address => known address ∨ i.Writes address) next after where
  accumulator_eq := by
    rw [accumulator_of_step hm, accumulator_of_step hn]
    refine Instruction.accumulatorAfter_congr hacc fun hi => ?_
    rw [hcells i.address (hreads i.address hi)]
  getElem?_eq := by
    intro address haddress
    rw [getElem?_of_step hm, getElem?_of_step hn]
    by_cases hwrites : i.Writes address
    · -- a store is no load, so the accumulators were equal before
      rw [if_pos hwrites, if_pos hwrites, hacc.resolve_right fun h => h.not_writes hwrites]
    · rw [if_neg hwrites, if_neg hwrites]
      exact hcells address (haddress.resolve_right hwrites)

/-- Machines that agree on the live cells of a program agree after it, also on all cells that it
    writes. -/
theorem agreeOn_of_run (hm : (m.run p).result = .ok ()) (hn : (n.run p).result = .ok ())
    (hacc : n.accumulator = m.accumulator ∨ p.StartsWithLoad)
    (hcells : ∀ address, known address → n.memory[address]? = m.memory[address]?)
    (hlive : ∀ address, p.LiveIn address → known address) :
    AgreeOn (fun address => known address ∨ p.Writes address)
      (m.run p).machine (n.run p).machine := by
  induction p generalizing m n known with
  | nil =>
    have hequal : n.accumulator = m.accumulator := by
      rcases hacc with hacc | ⟨i, rest, hload, -⟩
      · exact hacc
      · simp at hload
    exact ⟨hequal, fun address haddress =>
      hcells address (haddress.resolve_right (Program.not_writes_nil address))⟩
  | cons i rest ih =>
    obtain ⟨next, hmstep, hmrest⟩ := exists_step_of_run hm
    obtain ⟨after, hnstep, hnrest⟩ := exists_step_of_run hn
    have hload : n.accumulator = m.accumulator ∨ i.Loads := by
      refine hacc.imp_right ?_
      rintro ⟨j, tail, hsplit, hj⟩
      rwa [(List.cons_eq_cons.1 hsplit).1]
    have hstep := agreeOn_of_step hmstep hnstep hload hcells fun address hi =>
      hlive address (Program.liveIn_cons.2 (.inl hi))
    -- a cell that is live in the rest was live before, or it has just been written
    have hrest : ∀ address, Program.LiveIn rest address → known address ∨ i.Writes address := by
      intro address haddress
      by_cases hwrites : i.Writes address
      · exact .inr hwrites
      · exact .inl (hlive address (Program.liveIn_cons.2 (.inr ⟨hwrites, haddress⟩)))
    rw [run_of_step hmstep, run_of_step hnstep]
    refine (ih hmrest hnrest (.inl hstep.accumulator_eq) hstep.getElem?_eq hrest).mono ?_
    intro address haddress
    rwa [Program.writes_cons, ← or_assoc] at haddress

/-- A program that completes its first instruction, a load, completes a program that starts with a
    load. -/
theorem startsWithLoad_completed {rest : Program} (hload : i.Loads)
    (hi : i.Executable m.memory.size) : (m.completed (i :: rest)).StartsWithLoad := by
  obtain ⟨next, hstep⟩ := step_of_executable hi
  exact ⟨i, next.completed rest, completed_of_step hstep rest, hload⟩

/-- If a memory access was completed, the address used last does not depend on the machine. -/
theorem lastAccess_run_congr (hsize : n.memory.size = m.memory.size)
    (haccess : ∃ i ∈ m.completed p, i.UsesMemory) :
    (n.run p).machine.lastAccess = (m.run p).machine.lastAccess := by
  rw [lastAccess_run, lastAccess_run, completed_congr hsize]
  obtain ⟨i, hmem, huses⟩ := haccess
  cases hlast : ((m.completed p).filter (·.UsesMemory)).getLast? with
  | none =>
    rw [List.getLast?_eq_none_iff, List.filter_eq_nil_iff] at hlast
    exact absurd (decide_eq_true huses) (hlast i hmem)
  | some j => rfl

/-- **Dead cells have no influence.** Two machines have memories of one size, have completed equally
    many instructions, and agree on the cells that a program reads before it writes them. Their
    accumulators agree too, or the program starts with a load that can be carried out. Then the
    program comes to the same result on both, completing the same instructions, with the same
    accumulator and the same count afterwards, the same address used last if one was used at all,
    and the same cells wherever a cell was live or was stored to. -/
theorem run_ignores_dead_cells (m n : Machine) (p : Program)
    (hsize : n.memory.size = m.memory.size) (hcount : n.executed = m.executed)
    (hcells : ∀ address, p.LiveIn address → n.memory[address]? = m.memory[address]?)
    (hacc : n.accumulator = m.accumulator ∨
      ∃ i rest, p = i :: rest ∧ i.Loads ∧ i.Executable m.memory.size) :
    (n.run p).result = (m.run p).result ∧ n.completed p = m.completed p ∧
      (n.run p).machine.accumulator = (m.run p).machine.accumulator ∧
      (n.run p).machine.executed = (m.run p).machine.executed ∧
      ((∃ i ∈ m.completed p, i.UsesMemory) →
        (n.run p).machine.lastAccess = (m.run p).machine.lastAccess) ∧
      ∀ address, p.LiveIn address ∨ (m.completed p).Writes address →
        (n.run p).machine.memory[address]? = (m.run p).machine.memory[address]? := by
  have hcompleted := completed_congr hsize p
  have hm := m.run_completed p
  have hn := n.run_completed p
  rw [hcompleted] at hn
  have hstart : n.accumulator = m.accumulator ∨ (m.completed p).StartsWithLoad := by
    refine hacc.imp_right ?_
    rintro ⟨i, rest, rfl, hload, hi⟩
    exact startsWithLoad_completed hload hi
  have hagree := agreeOn_of_run (by rw [hm]) (by rw [hn]) hstart hcells fun address haddress =>
    haddress.of_isPrefix (m.completed_isPrefix p)
  rw [hm, hn] at hagree
  refine ⟨result_run_congr hsize hcount p, hcompleted, hagree.accumulator_eq, ?_,
    lastAccess_run_congr hsize, hagree.getElem?_eq⟩
  rw [executed_run, executed_run, hcompleted, hcount]

/-- A cell is copied and compared, and a store outside the memory follows. The machines differ in
    the two cells that are dead and in the accumulator. -/
theorem run_ignores_dead_cells_copied :
    (∀ address, Program.LiveIn [.ofOperation .loadMemory 0, .ofOperation .store 1,
          .ofOperation .equal 1, .ofOperation .store 9] address →
        (#[5, 7, 8] : Array Cell)[address]? = (#[5, 0, 0] : Array Cell)[address]?) ∧
      (run ⟨⟨3, .strict⟩, #[5, 7, 8], 1, 4, some 2⟩ [.ofOperation .loadMemory 0,
          .ofOperation .store 1, .ofOperation .equal 1, .ofOperation .store 9]).result =
        .error (.outOfBounds 9 3 7) :=
  have hcells := Program.forall_liveIn_iff.2 (by decide)
  ⟨hcells, (run_ignores_dead_cells ⟨⟨3, .silent⟩, #[5, 0, 0], 9, 4, none⟩
    ⟨⟨3, .strict⟩, #[5, 7, 8], 1, 4, some 2⟩ _ rfl rfl hcells
    (.inr ⟨_, _, rfl, by decide, by decide⟩)).1.trans rfl⟩

end Machine

end Accumulator
