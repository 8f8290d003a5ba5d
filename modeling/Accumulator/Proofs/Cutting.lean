import Accumulator.Machine.Effects
import Accumulator.Proofs.Compilation
set_option autoImplicit false

/-! # Cutting a stream

A stream can be handed to a machine in two pieces. If the first piece ends where an instruction
ends, the machine does with the two pieces what it does with the whole: the second piece decodes as
it does inside the stream (`decode_encode_append`), and it finds the machine as the first one has
left it. The count of completed instructions goes on from the first piece to the second, so an error
in the second piece even has the position that it has in the whole.

There is one thing that only the whole can tell. A machine that insists on whole instructions
refuses a stream with a rest before it runs anything, and so with both pieces at once; with the two
pieces in a row it would have run the first. `execute_append` says both. -/

namespace Accumulator

/-! ## Decoding behind a program -/

namespace Bytecode

/-- A stream of whole instructions encodes a program. -/
theorem exists_eq_encode {bytes : Bytes} (h : 4 ∣ bytes.length) :
    ∃ p : Program, bytes = encode p := by
  obtain ⟨p, hp⟩ := exists_chunks_eq_map_encode bytes
  have hrest : rest bytes = [] := Decidable.not_not.1 fun hne => (rest_ne_nil_iff bytes).1 hne h
  refine ⟨p, ?_⟩
  calc bytes
      = (chunks bytes).flatten ++ rest bytes := (flatten_chunks_append_rest bytes).symm
    _ = (p.map Instruction.encode).flatten := by rw [hp, hrest, List.append_nil]
    _ = encode p := (List.flatMap_def ..).symm

@[simp]
theorem length_encode (p : Program) : (encode p).length = 4 * p.length := by
  induction p with
  | nil => rfl
  | cons i p ih =>
    simp only [encode_cons, List.length_append, ih, Instruction.length_encode, List.length_cons]
    omega

/-- A stream decodes behind a program as it does alone. -/
theorem decode_encode_append {policy : Truncation} {bytes : Bytes} {q : Program}
    (h : decode policy bytes = .ok q) (p : Program) :
    decode policy (encode p ++ bytes) = .ok (p ++ q) := by
  rw [decode_eq_ok_iff] at h ⊢
  rw [rest_encode_append, chunks_encode_append, h.2, List.map_append]
  exact ⟨h.1, rfl⟩

/-- A stream whose rest may be dropped decodes, and so does one without a rest. -/
theorem exists_decode_eq_ok {policy : Truncation} {bytes : Bytes}
    (h : policy = .silent ∨ 4 ∣ bytes.length) : ∃ p : Program, decode policy bytes = .ok p := by
  obtain ⟨p, hp⟩ := exists_chunks_eq_map_encode bytes
  refine ⟨p, decode_eq_ok_iff.2 ⟨?_, hp⟩⟩
  rcases h with hsilent | hwhole
  · exact .inr hsilent
  · exact .inl (Decidable.not_not.1 fun hne => (rest_ne_nil_iff bytes).1 hne hwhole)

end Bytecode

/-! ## Running the pieces -/

namespace Machine

/-- A run keeps the configuration, however it ends. -/
@[simp]
theorem config_run (m : Machine) (p : Program) : (m.run p).machine.config = m.config := by
  induction p generalizing m with
  | nil => rfl
  | cons i p ih =>
    rw [run]
    cases hstep : m.step i with
    | error e => rfl
    | ok next => exact (ih next).trans (step_keeps hstep).2.1

/-- What follows a program in a stream finds the machine as the program has left it. -/
theorem execute_encode_append {m : Machine} {bytes : Bytes} {q : Program}
    (h : m.load bytes = .ok q) (p : Program) (w between : Window) :
    m.execute (Bytecode.encode p ++ bytes) w =
      (m.execute (Bytecode.encode p) between).andThen fun _ after => after.execute bytes w := by
  have hwhole : m.load (Bytecode.encode p ++ bytes) = .ok (p ++ q) :=
    Bytecode.decode_encode_append h p
  rw [execute, hwhole, execute_encode, Outcome.andThen]
  simp only [run_append]
  cases hresult : (m.run p).result with
  | error e =>
    rw [result_select_of_error hresult]
    rfl
  | ok =>
    have hload : (m.run p).machine.load bytes = .ok q := by
      simpa [load] using h
    rw [result_select_of_ok hresult]
    show select w ((m.run p).machine.run q) = (m.run p).machine.execute bytes w
    rw [execute, hload]

/-- **A stream may be cut behind any of its instructions.** The two pieces in a row, the second only
    if the first ends well, give what the whole stream gives: the same cells or the same error, at
    the same position, and the same machine. The window asked of the first piece does not matter.
    Only a machine that insists on whole instructions sees a difference, and only if the second
    piece has a rest: it refuses the whole stream, telling where the rest stands in it, and runs
    nothing. -/
theorem execute_append (m : Machine) {front : Bytes} (back : Bytes) (hfront : 4 ∣ front.length)
    (w between : Window) :
    (m.config.truncation = .silent ∨ 4 ∣ back.length →
      m.execute (front ++ back) w =
        (m.execute front between).andThen fun _ after => after.execute back w) ∧
    (m.config.truncation = .strict → ¬ 4 ∣ back.length →
      m.execute (front ++ back) w =
        ⟨.error (.truncated (front.length + 4 * (back.length / 4)) (back.length % 4)), m⟩) := by
  obtain ⟨p, rfl⟩ := Bytecode.exists_eq_encode hfront
  refine ⟨fun hkept => ?_, fun hstrict hrest => ?_⟩
  · obtain ⟨q, hq⟩ := Bytecode.exists_decode_eq_ok hkept
    exact execute_encode_append hq p w between
  · have hlength : (Bytecode.encode p ++ back).length = 4 * p.length + back.length := by
      simp
    have hwhole : ¬ 4 ∣ (Bytecode.encode p ++ back).length := by omega
    have hoffset : 4 * ((4 * p.length + back.length) / 4) =
        (Bytecode.encode p).length + 4 * (back.length / 4) := by
      rw [Bytecode.length_encode]
      omega
    have hshort : (4 * p.length + back.length) % 4 = back.length % 4 := by omega
    rw [execute, load, hstrict, Bytecode.decode_strict, if_neg hwhole, hlength, hoffset, hshort]

/-- A constant is loaded and stored outside the memory, and half an instruction follows. -/
theorem execute_append_load_store :
    4 ∣ ([0x72, 0, 0, 0] : Bytes).length ∧
      (fresh ⟨1, .silent⟩).execute ([0x72, 0, 0, 0] ++ [0x1B, 0, 0, 0, 0xFB]) ⟨0, 1⟩ =
        ((fresh ⟨1, .silent⟩).execute [0x72, 0, 0, 0] ⟨5, 2⟩).andThen
          (fun _ after => after.execute [0x1B, 0, 0, 0, 0xFB] ⟨0, 1⟩) ∧
      (fresh ⟨1, .strict⟩).execute ([0x72, 0, 0, 0] ++ [0x1B, 0, 0, 0, 0xFB]) ⟨0, 1⟩ =
        ⟨.error (.truncated 8 1), fresh ⟨1, .strict⟩⟩ :=
  ⟨by decide,
    (execute_append (fresh ⟨1, .silent⟩) _ (by decide) ⟨0, 1⟩ ⟨5, 2⟩).1 (.inl rfl),
    (execute_append (fresh ⟨1, .strict⟩) _ (by decide) ⟨0, 1⟩ ⟨5, 2⟩).2 rfl (by decide)⟩

end Machine

end Accumulator
