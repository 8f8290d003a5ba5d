import Accumulator.Bytecode
set_option autoImplicit false

/-! # Bytecode and programs determine each other

Every stream is its chunks and its rest, and every chunk is the encoding of exactly one
instruction. So a program is encoded to a stream without a rest that decodes to it again, and a
stream decodes to the one program whose encoding is the stream up to its rest. The two policies
differ on streams that have a rest and on no others, and decoding never fails inside a stream. -/

namespace Accumulator.Bytecode

/-! ## Chunks and rest -/

theorem flatten_chunks_append_rest (bytes : Bytes) :
    (chunks bytes).flatten ++ rest bytes = bytes := by
  fun_induction chunks bytes with
  | case1 b₀ b₁ b₂ b₃ later ih =>
    rw [rest, List.flatten_cons, List.append_assoc, ih]
    rfl
  | case2 short hshort =>
    rw [rest.eq_2 short hshort]
    rfl

@[simp]
theorem length_rest (bytes : Bytes) : (rest bytes).length = bytes.length % 4 := by
  fun_induction rest bytes with
  | case1 b₀ b₁ b₂ b₃ later ih =>
    rw [ih]
    simp only [List.length_cons]
    omega
  | case2 short hshort =>
    match short with
    | [] => rfl
    | [_] => rfl
    | [_, _] => rfl
    | [_, _, _] => rfl
    | b₀ :: b₁ :: b₂ :: b₃ :: later => exact absurd rfl (hshort b₀ b₁ b₂ b₃ later)

theorem flatten_chunks (bytes : Bytes) :
    (chunks bytes).flatten = bytes.take (4 * (bytes.length / 4)) := by
  have hsplit := flatten_chunks_append_rest bytes
  have hlength : (chunks bytes).flatten.length = 4 * (bytes.length / 4) := by
    have := congrArg List.length hsplit
    rw [List.length_append, length_rest] at this
    omega
  calc (chunks bytes).flatten
      = ((chunks bytes).flatten ++ rest bytes).take (4 * (bytes.length / 4)) :=
        (List.take_left' hlength).symm
    _ = bytes.take (4 * (bytes.length / 4)) := by rw [hsplit]

theorem rest_ne_nil_iff (bytes : Bytes) : rest bytes ≠ [] ↔ ¬ 4 ∣ bytes.length := by
  rw [← List.length_pos_iff, length_rest]
  omega

/-- Every chunk of a stream encodes an instruction. -/
theorem exists_chunks_eq_map_encode (bytes : Bytes) :
    ∃ p : Program, chunks bytes = p.map Instruction.encode := by
  fun_induction chunks bytes with
  | case1 b₀ b₁ b₂ b₃ later ih =>
    obtain ⟨p, hp⟩ := ih
    refine ⟨Instruction.ofBytes b₀ b₁ b₂ b₃ :: p, ?_⟩
    rw [List.map_cons, Instruction.encode_ofBytes, hp]
  | case2 => exact ⟨[], rfl⟩

/-- The chunks of an encoded program stand before the chunks of what follows it. -/
@[simp]
theorem chunks_encode_append (p : Program) (bytes : Bytes) :
    chunks (encode p ++ bytes) = p.map Instruction.encode ++ chunks bytes := by
  induction p with
  | nil => rfl
  | cons i p ih =>
    rw [encode_cons, List.append_assoc, List.map_cons, List.cons_append, ← ih]
    rfl

@[simp]
theorem chunks_encode (p : Program) : chunks (encode p) = p.map Instruction.encode := by
  simpa [chunks] using chunks_encode_append p []

@[simp]
theorem rest_encode_append (p : Program) (bytes : Bytes) :
    rest (encode p ++ bytes) = rest bytes := by
  induction p with
  | nil => rfl
  | cons i p ih => exact ih

@[simp]
theorem rest_encode (p : Program) : rest (encode p) = [] := by
  simpa [rest] using rest_encode_append p []

/-! ## Decoding -/

@[simp]
theorem decodeChunks_map_encode (offset : Nat) (p : Program) :
    decodeChunks offset (p.map Instruction.encode) = .ok p := by
  induction p generalizing offset with
  | nil => rfl
  | cons i p ih =>
    rw [List.map_cons, decodeChunks, Instruction.decodeAt_encode, ih]
    rfl

@[simp]
theorem decode_encode (policy : Truncation) (p : Program) : decode policy (encode p) = .ok p := by
  simp [decode]

/-- A stream decodes to the program of its chunks, unless its rest is refused. -/
theorem decode_eq_ok_iff {policy : Truncation} {bytes : Bytes} {p : Program} :
    decode policy bytes = .ok p ↔
      (rest bytes = [] ∨ policy = .silent) ∧ chunks bytes = p.map Instruction.encode := by
  obtain ⟨q, hq⟩ := exists_chunks_eq_map_encode bytes
  have hkept : (rest bytes = [] ∨ policy = .silent) ↔ ¬ (rest bytes ≠ [] ∧ policy = .strict) := by
    cases policy <;> simp
  rw [decode, hkept]
  constructor
  · intro h
    split at h
    · simp at h
    · next hnot =>
      rw [hq, decodeChunks_map_encode] at h
      obtain rfl := Except.ok.inj h
      exact ⟨hnot, hq⟩
  · intro h
    rw [if_neg h.1, h.2, decodeChunks_map_encode]

theorem decode_silent (bytes : Bytes) : decode .silent bytes = decodeChunks 0 (chunks bytes) := by
  simp [decode]

theorem decode_strict (bytes : Bytes) :
    decode .strict bytes =
      if 4 ∣ bytes.length then decodeChunks 0 (chunks bytes)
      else .error (.truncated (4 * (bytes.length / 4)) (bytes.length % 4)) := by
  have hoffset : bytes.length - bytes.length % 4 = 4 * (bytes.length / 4) := by omega
  by_cases hwhole : 4 ∣ bytes.length
  · have hrest : ¬ rest bytes ≠ [] := fun h => (rest_ne_nil_iff bytes).1 h hwhole
    rw [decode, if_neg (fun h => hrest h.1), if_pos hwhole]
  · have hrest := (rest_ne_nil_iff bytes).2 hwhole
    rw [decode, if_pos ⟨hrest, rfl⟩, if_neg hwhole, length_rest, hoffset]

/-- The only reason to refuse a stream is its rest. -/
theorem exists_truncated_of_decode {policy : Truncation} {bytes : Bytes} {e : Error}
    (h : decode policy bytes = .error e) : ∃ offset length, e = .truncated offset length := by
  obtain ⟨p, hp⟩ := exists_chunks_eq_map_encode bytes
  rw [decode, hp, decodeChunks_map_encode] at h
  split at h
  · exact ⟨_, _, (Except.error.inj h).symm⟩
  · simp at h

/-- **Programs and streams of whole chunks are the same thing.** A program is decoded from its
    encoding under either policy. A stream decodes, when its rest may be dropped, to a program that
    encodes to the stream without its rest; a reader that insists on whole chunks finds the same
    program or refuses the rest, telling where it stands and how long it is; and no single chunk is
    ever refused, at whatever offset it is decoded. -/
theorem decode_encode_encode_decode :
    (∀ (policy : Truncation) (p : Program), decode policy (encode p) = .ok p) ∧
    ∀ bytes : Bytes, ∃ p : Program,
      decode .silent bytes = .ok p ∧
      encode p = bytes.take (4 * (bytes.length / 4)) ∧
      decode .strict bytes =
        (if 4 ∣ bytes.length then .ok p
        else .error (.truncated (4 * (bytes.length / 4)) (bytes.length % 4))) ∧
      ∀ offset : Nat, (chunks bytes).map (Instruction.decodeAt offset) = p.map .ok := by
  refine ⟨fun policy p => ?_, fun bytes => ?_⟩
  · exact decode_encode policy p
  · obtain ⟨p, hp⟩ := exists_chunks_eq_map_encode bytes
    refine ⟨p, ?_, ?_, ?_, fun offset => ?_⟩
    · rw [decode_silent, hp, decodeChunks_map_encode]
    · rw [← flatten_chunks, hp]
      exact List.flatMap_def ..
    · rw [decode_strict, hp, decodeChunks_map_encode]
    · rw [hp, List.map_map]
      exact List.map_congr_left fun i _ => Instruction.decodeAt_encode offset i

end Accumulator.Bytecode
