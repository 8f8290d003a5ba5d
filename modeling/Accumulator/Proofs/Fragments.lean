import Accumulator.Proofs.Liveness
set_option autoImplicit false

/-! # Fragments that commute

A fragment of a program starts with a load, so it does not look at the accumulator that it finds.
Two fragments of which neither writes a cell that the other one uses are independent: each leaves
the other's live cells as they are, and so each writes what it would write without the other
(`getElem?_run_append`). It follows that they may run in either order, and with them all fragments
of a list that are pairwise independent (`memory_run_flatten`). The accumulator is not part of this:
it is left by the fragment that comes last. -/

namespace Accumulator

namespace Program

/-! ## Fragments -/

/-- Whether the program is empty or starts with a load. -/
def IsFragment (p : Program) : Prop := p = [] ∨ p.StartsWithLoad

/-- No address that one of the programs writes is written or read by the other. -/
structure Independent (p q : Program) : Prop where
  left : ∀ address, p.Writes address → ¬ q.Writes address ∧ ¬ q.Reads address
  right : ∀ address, q.Writes address → ¬ p.Writes address ∧ ¬ p.Reads address

theorem Independent.symm {p q : Program} (h : p.Independent q) : q.Independent p :=
  ⟨h.right, h.left⟩

theorem independent_iff {p q : Program} :
    p.Independent q ↔
      (∀ i ∈ p, p.Writes i.address → ¬ q.Writes i.address ∧ ¬ q.Reads i.address) ∧
        ∀ i ∈ q, q.Writes i.address → ¬ p.Writes i.address ∧ ¬ p.Reads i.address := by
  constructor
  · intro h
    exact ⟨forall_writes_iff.1 h.left, forall_writes_iff.1 h.right⟩
  · intro h
    exact ⟨forall_writes_iff.2 h.1, forall_writes_iff.2 h.2⟩

instance (p q : Program) : Decidable (p.Independent q) :=
  decidable_of_iff _ independent_iff.symm

theorem IsFragment.append {p q : Program} (hp : p.IsFragment) (hq : q.IsFragment) :
    IsFragment (p ++ q) := by
  rcases hp with rfl | ⟨i, rest, rfl, hi⟩
  · exact hq
  · exact .inr ⟨i, rest ++ q, rfl, hi⟩

theorem isFragment_flatten {fragments : List Program} (h : ∀ p ∈ fragments, p.IsFragment) :
    IsFragment fragments.flatten := by
  induction fragments with
  | nil => exact .inl rfl
  | cons p rest ih =>
    rw [List.forall_mem_cons] at h
    exact h.1.append (ih h.2)

/-! ## Assignments -/

/-- The fragment that puts a constant into a cell. -/
def assign (value address : BitVec 28) : Program :=
  [.ofOperation .loadConstant value, .ofOperation .store address]

/-- Constants put into cells one after the other, each given with its address. -/
def assignments (blocks : List (BitVec 28 × BitVec 28)) : Program :=
  (blocks.map fun block => assign block.1 block.2).flatten

theorem isFragment_assign (value address : BitVec 28) : (assign value address).IsFragment :=
  .inr ⟨_, _, rfl, .inl (Instruction.operation?_ofOperation _ _)⟩

theorem writes_assign {value address : BitVec 28} {n : Nat} :
    (assign value address).Writes n ↔ address.toNat = n := by
  simp [assign, Instruction.Writes]

theorem not_reads_assign (value address : BitVec 28) (n : Nat) :
    ¬ (assign value address).Reads n := by
  simp [assign, Reads, Instruction.Reads]

theorem independent_assign {address other : BitVec 28} (h : address ≠ other)
    (value further : BitVec 28) : (assign value address).Independent (assign further other) := by
  have hne : address.toNat ≠ other.toNat := fun heq => h (BitVec.eq_of_toNat_eq heq)
  constructor
  · intro n hn
    rw [writes_assign] at hn ⊢
    exact ⟨fun hother => hne (hn.trans hother.symm), not_reads_assign further other n⟩
  · intro n hn
    rw [writes_assign] at hn ⊢
    exact ⟨fun haddress => hne (haddress.trans hn.symm), not_reads_assign value address n⟩

theorem executable_of_mem_assign {value address : BitVec 28} {size : Nat} {i : Instruction}
    (h : address.toNat < size) (hi : i ∈ assign value address) : i.Executable size := by
  rw [assign, List.mem_cons, List.mem_singleton] at hi
  rcases hi with rfl | rfl
  · exact (Instruction.executable_iff (Instruction.operation?_ofOperation _ _)).2 (.inl rfl)
  · exact (Instruction.executable_iff (Instruction.operation?_ofOperation _ _)).2 (.inr h)

theorem executable_of_mem_assignments {blocks : List (BitVec 28 × BitVec 28)} {size : Nat}
    {i : Instruction} (h : ∀ block ∈ blocks, block.2.toNat < size) (hi : i ∈ assignments blocks) :
    i.Executable size := by
  rw [assignments, List.mem_flatten] at hi
  obtain ⟨fragment, hfragment, hi⟩ := hi
  obtain ⟨block, hblock, rfl⟩ := List.mem_map.1 hfragment
  exact executable_of_mem_assign (h block hblock) hi

end Program

namespace Machine

/-! ## Two fragments -/

variable {m n : Machine} {p q : Program}

/-- Behind a program that is independent of it a fragment writes what it writes without it. -/
theorem getElem?_run_append {address : Nat} (hq : q.IsFragment) (h : p.Independent q)
    (hok : (m.run (p ++ q)).result = .ok ()) (haddress : ¬ p.Writes address) :
    (m.run (p ++ q)).machine.memory[address]? = (m.run q).machine.memory[address]? := by
  have hp := result_run_of_subset hok (List.subset_append_left p q)
  have halone := result_run_of_subset hok (List.subset_append_right p q)
  rw [run_append_of_ok hp] at hok ⊢
  rcases hq with rfl | hload
  · exact getElem?_run haddress
  · have hlive : ∀ other, q.LiveIn other → ¬ p.Writes other := fun other hother hwrites =>
      (h.left other hwrites).2 hother.reads
    have hagree := agreeOn_of_run halone hok (.inr hload) (fun _ => getElem?_run) hlive
    exact hagree.getElem?_eq address (.inl haddress)

/-- Where the first program does not write, the order does not matter. -/
theorem getElem?_run_append_comm {address : Nat} (hq : q.IsFragment) (h : p.Independent q)
    (hok : (m.run (p ++ q)).result = .ok ()) (haddress : ¬ p.Writes address) :
    (m.run (p ++ q)).machine.memory[address]? = (m.run (q ++ p)).machine.memory[address]? := by
  have halone := result_run_of_subset hok (List.subset_append_right p q)
  rw [getElem?_run_append hq h hok haddress, run_append_of_ok halone, getElem?_run haddress]

/-- Independent fragments leave the same memory in either order. -/
theorem memory_run_append_comm (hp : p.IsFragment) (hq : q.IsFragment) (h : p.Independent q)
    (hok : (m.run (p ++ q)).result = .ok ()) :
    (m.run (p ++ q)).machine.memory = (m.run (q ++ p)).machine.memory := by
  have hother := result_run_of_subset hok List.perm_append_comm.subset
  refine Array.ext_getElem? fun address => ?_
  -- what one of the two writes, the other one does not
  by_cases haddress : p.Writes address
  · exact (getElem?_run_append_comm hp h.symm hother (h.left address haddress).1).symm
  · exact getElem?_run_append_comm hq h hok haddress

/-! ## Any number of fragments -/

/-- A fragment depends on nothing but the memory. -/
theorem memory_run_congr (hmemory : n.memory = m.memory) (hp : p.IsFragment)
    (hok : (m.run p).result = .ok ()) :
    (n.run p).machine.memory = (m.run p).machine.memory := by
  rcases hp with rfl | hload
  · exact hmemory
  · have hexecutable := executable_of_run hok
    rw [← hmemory] at hexecutable
    have hn := (run_of_executable hexecutable).1
    have hcells : ∀ address : Nat, True → n.memory[address]? = m.memory[address]? := by
      rw [hmemory]
      exact fun _ _ => rfl
    have hagree := agreeOn_of_run hok hn (.inr hload) hcells fun _ _ => trivial
    exact Array.ext_getElem? fun address => hagree.getElem?_eq address (.inl trivial)

/-- Fragments that are pairwise independent leave the same memory in any order. -/
theorem memory_run_flatten {fragments others : List Program} (hperm : fragments.Perm others)
    (hfragments : ∀ p ∈ fragments, p.IsFragment)
    (hpairwise : fragments.Pairwise Program.Independent)
    (hok : (m.run fragments.flatten).result = .ok ()) :
    (m.run fragments.flatten).machine.memory = (m.run others.flatten).machine.memory := by
  induction hperm generalizing m with
  | nil => rfl
  | @cons p rest others hrest ih =>
    rw [List.forall_mem_cons] at hfragments
    have hp := result_run_of_subset hok (List.subset_append_left p rest.flatten)
    rw [List.flatten_cons] at hok ⊢
    rw [List.flatten_cons, run_append_of_ok hp, run_append_of_ok hp]
    rw [run_append_of_ok hp] at hok
    exact ih hfragments.2 hpairwise.of_cons hok
  | swap p q rest =>
    have hindependent : q.Independent p := (List.pairwise_cons.1 hpairwise).1 p List.mem_cons_self
    simp only [List.forall_mem_cons] at hfragments
    obtain ⟨hq, hp, hrest⟩ := hfragments
    simp only [List.flatten_cons, ← List.append_assoc] at hok ⊢
    have hfront := result_run_of_subset hok (List.subset_append_left (q ++ p) rest.flatten)
    have hother := result_run_of_subset hfront List.perm_append_comm.subset
    rw [run_append_of_ok hfront] at hok ⊢
    rw [run_append_of_ok hother]
    have hmemory := memory_run_append_comm hq hp hindependent hfront
    exact (memory_run_congr hmemory.symm (Program.isFragment_flatten hrest) hok).symm
  | trans h _ ih further =>
    rw [ih hfragments hpairwise hok]
    refine further (fun p hp => hfragments p (h.mem_iff.2 hp)) ?_ ?_
    · exact (h.pairwise_iff Program.Independent.symm).1 hpairwise
    · exact result_run_of_subset hok h.flatten.symm.subset

/-- Whether a program reaches its end does not depend on the order of its instructions, and neither
    does the count after it. -/
theorem run_perm (h : p.Perm q) (hok : (m.run p).result = .ok ()) :
    (m.run q).result = .ok () ∧ (m.run q).machine.executed = (m.run p).machine.executed := by
  have hq := result_run_of_subset hok h.symm.subset
  have hp' := (m.result_run_eq_ok_iff p).1 hok
  have hq' := (m.result_run_eq_ok_iff q).1 hq
  refine ⟨hq, ?_⟩
  rw [executed_run, executed_run, hp', hq', h.length_eq]

/-- Constants for different addresses of the memory leave the same memory in any order. -/
theorem memory_run_assignments {blocks others : List (BitVec 28 × BitVec 28)}
    (hperm : blocks.Perm others) (hnodup : (blocks.map Prod.snd).Nodup)
    (hok : (m.run (Program.assignments blocks)).result = .ok ()) :
    (m.run (Program.assignments blocks)).machine.memory =
      (m.run (Program.assignments others)).machine.memory := by
  refine memory_run_flatten (hperm.map _) ?_ ?_ hok
  · intro p hp
    obtain ⟨block, -, rfl⟩ := List.mem_map.1 hp
    exact Program.isFragment_assign block.1 block.2
  · rw [List.pairwise_map]
    exact (List.pairwise_map.1 hnodup).imp fun hne => Program.independent_assign hne _ _

/-- **Independent fragments commute.** Of two programs that are empty or start with a load, neither
    writes an address that the other one writes or reads. Then they reach their end in one order if
    and only if they do in the other, and both orders leave the same memory and the same count. As a
    case of this, constants that are put into cells at different addresses of the memory may be put
    there in any order. -/
theorem fragments_commute (m : Machine) :
    (∀ p q : Program, p.IsFragment → q.IsFragment → p.Independent q →
      ((m.run (p ++ q)).result = .ok () ↔ (m.run (q ++ p)).result = .ok ()) ∧
      ((m.run (p ++ q)).result = .ok () →
        (m.run (p ++ q)).machine.memory = (m.run (q ++ p)).machine.memory ∧
        (m.run (p ++ q)).machine.executed = (m.run (q ++ p)).machine.executed)) ∧
    ∀ blocks others : List (BitVec 28 × BitVec 28), blocks.Perm others →
      (blocks.map Prod.snd).Nodup → (∀ block ∈ blocks, block.2.toNat < m.memory.size) →
      (m.run (Program.assignments blocks)).result = .ok () ∧
        (m.run (Program.assignments others)).result = .ok () ∧
        (m.run (Program.assignments blocks)).machine.memory =
          (m.run (Program.assignments others)).machine.memory := by
  constructor
  · intro p q hp hq h
    have hperm : (p ++ q).Perm (q ++ p) := List.perm_append_comm
    refine ⟨⟨fun hok => (run_perm hperm hok).1, fun hok => (run_perm hperm.symm hok).1⟩, ?_⟩
    intro hok
    exact ⟨memory_run_append_comm hp hq h hok, (run_perm hperm hok).2.symm⟩
  · intro blocks others hperm hnodup hlt
    have hok := (run_of_executable fun i => Program.executable_of_mem_assignments hlt (i := i)).1
    have hother := (run_perm (hperm.map fun block => Program.assign block.1 block.2).flatten hok).1
    exact ⟨hok, hother, memory_run_assignments hperm hnodup hok⟩

/-- A cell is copied, and compared with a constant. -/
theorem fragments_commute_copied :
    Program.Independent [⟨12#4, 0#28⟩, ⟨11#4, 1#28⟩] [⟨2#4, 7#28⟩, ⟨7#4, 0#28⟩, ⟨11#4, 2#28⟩] ∧
      (run ⟨⟨3, .silent⟩, #[7, 0, 0], 5, 0, none⟩
        ([⟨12#4, 0#28⟩, ⟨11#4, 1#28⟩] ++ [⟨2#4, 7#28⟩, ⟨7#4, 0#28⟩, ⟨11#4, 2#28⟩])).machine.memory =
      (run ⟨⟨3, .silent⟩, #[7, 0, 0], 5, 0, none⟩
        ([⟨2#4, 7#28⟩, ⟨7#4, 0#28⟩, ⟨11#4, 2#28⟩] ++ [⟨12#4, 0#28⟩, ⟨11#4, 1#28⟩])).machine.memory :=
  have h : Program.Independent [⟨12#4, 0#28⟩, ⟨11#4, 1#28⟩]
      [⟨2#4, 7#28⟩, ⟨7#4, 0#28⟩, ⟨11#4, 2#28⟩] := by decide
  ⟨h, (((fragments_commute ⟨⟨3, .silent⟩, #[7, 0, 0], 5, 0, none⟩).1 _ _
    (.inr ⟨_, _, rfl, by decide⟩) (.inr ⟨_, _, rfl, by decide⟩) h).2 rfl).1⟩

end Machine

end Accumulator
