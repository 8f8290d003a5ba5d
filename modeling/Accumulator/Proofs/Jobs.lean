import Accumulator.FileSystem
import Accumulator.Job
set_option autoImplicit false

/-! # What jobs do to files

A job reads, computes, and only then writes, so a job that fails before its first write leaves every
file as it was. Assembling writes twice: if the log cannot be written after the bytecode was, the
bytecode stays, complete. This is so in every file system and for all paths, which may lead to one
file or several. In particular a job may write over the file that it has read, since by then it has
all of its content; and if bytecode and log go to one file, that file has the log in the end.

`AssembleEnds` and `InterpretEnds` list the ways for a job to end, one for each access or
computation that may fail. What a file holds afterwards follows case by case from the laws of a file
system (`files_after`). It holds a text if that is what its bytes decode to. -/

namespace Accumulator

/-! ## Files before and after -/

namespace FileSystem

variable (fs : FileSystem)

/-- The text of the file at a path. -/
def readText (s : fs.State) (path : String) : Except Error String :=
  match fs.read s path with
  | .error e => .error (.file e)
  | .ok content =>
    match Text.ofUtf8? content with
    | none => .error (.file .notText)
    | some text => .ok text

/-- The file at a path holds the given bytes. -/
def Holds (s : fs.State) (path : String) (content : Bytes) : Prop :=
  ∃ file, fs.locate? s path = some file ∧ fs.content? s file = some content

/-- The file at a path holds the given text: it holds bytes, and the text is what they decode to. -/
def HoldsText (s : fs.State) (path text : String) : Prop :=
  ∃ content, fs.Holds s path content ∧ Text.ofUtf8? content = some text

/-- Every file that none of the paths leads to has the content that it had. -/
def ChangesOnly (paths : List String) (before after : fs.State) : Prop :=
  ∀ file, (∀ path ∈ paths, fs.locate? after path ≠ some file) →
    fs.content? after file = fs.content? before file

/-- Every file has the content that it had, and there is no new one. -/
def Unchanged (before after : fs.State) : Prop :=
  ∀ file, fs.content? after file = fs.content? before file

variable {fs} {s : fs.State} {path : String} {content : Bytes}

theorem unchanged_of_write_error {e : FileError}
    (h : (fs.write s path content).1 = .error e) :
    fs.Unchanged s (fs.write s path content).2 :=
  fs.content?_of_write_error h

theorem holds_of_write (h : (fs.write s path content).1 = .ok ()) :
    fs.Holds (fs.write s path content).2 path content := by
  obtain ⟨file, hlocate, hcontent, -⟩ := fs.content?_of_write h
  exact ⟨file, hlocate, hcontent⟩

theorem holdsText_of_write {text : String}
    (h : (fs.write s path (Text.utf8 text)).1 = .ok ()) :
    fs.HoldsText (fs.write s path (Text.utf8 text)).2 path text :=
  ⟨_, holds_of_write h, Text.ofUtf8?_utf8 text⟩

/-- A file that was written keeps what it holds if another write fails. -/
theorem Holds.write_error (h : fs.Holds s path content) {other : String} {later : Bytes}
    {e : FileError} (hwrite : (fs.write s other later).1 = .error e) :
    fs.Holds (fs.write s other later).2 path content := by
  obtain ⟨file, hlocate, hcontent⟩ := h
  refine ⟨file, fs.locate?_write other later hlocate, ?_⟩
  rw [fs.content?_of_write_error hwrite, hcontent]

/-- A file that was written keeps what it holds if another file is written. -/
theorem Holds.write (h : fs.Holds s path content) {other : String} {later : Bytes}
    (hwrite : (fs.write s other later).1 = .ok ())
    (hne : fs.locate? (fs.write s other later).2 path ≠
      fs.locate? (fs.write s other later).2 other) :
    fs.Holds (fs.write s other later).2 path content := by
  obtain ⟨file, hlocate, hcontent⟩ := h
  obtain ⟨target, htarget, -, hothers⟩ := fs.content?_of_write hwrite
  have hkept := fs.locate?_write other later hlocate
  refine ⟨file, hkept, ?_⟩
  rw [hothers file, hcontent]
  rintro rfl
  exact hne (hkept.trans htarget.symm)

/-- A write adds its path to those whose files may have changed. -/
theorem ChangesOnly.write {before : fs.State} {paths : List String}
    (h : fs.ChangesOnly paths before s) (hwrite : (fs.write s path content).1 = .ok ()) :
    fs.ChangesOnly (path :: paths) before (fs.write s path content).2 := by
  obtain ⟨target, htarget, -, hothers⟩ := fs.content?_of_write hwrite
  intro file hfile
  have hne : file ≠ target := by
    rintro rfl
    exact hfile path (List.mem_cons_self ..) htarget
  rw [hothers file hne]
  apply h
  intro p hp hlocate
  exact hfile p (List.mem_cons_of_mem _ hp) (fs.locate?_write path content hlocate)

theorem ChangesOnly.write_error {before : fs.State} {paths : List String} {e : FileError}
    (h : fs.ChangesOnly paths before s) (hwrite : (fs.write s path content).1 = .error e) :
    fs.ChangesOnly paths before (fs.write s path content).2 := by
  intro file hfile
  rw [fs.content?_of_write_error hwrite]
  apply h
  intro p hp hlocate
  exact hfile p hp (fs.locate?_write path content hlocate)

theorem Unchanged.refl (s : fs.State) : fs.Unchanged s s := fun _ => rfl

theorem ChangesOnly.refl (s : fs.State) : fs.ChangesOnly [] s s := fun _ _ => rfl

end FileSystem

/-! ## Assembling -/

namespace Job

/-- The bytes of the log that is written for a source. -/
def logBytes (text : String) : Bytes :=
  Text.utf8 (Log.render (Assembler.empty.assemble text).2.log)

/-- How assembling may end, in a given state of the files: with a result, in a state. -/
inductive AssembleEnds (fs : FileSystem) (s : fs.State) (source binary log : String) :
    Except Error Program → fs.State → Prop
  /-- The source cannot be read. -/
  | unread {e : Error} : fs.readText s source = .error e →
      AssembleEnds fs s source binary log (.error e) s
  /-- The source is refused. -/
  | refused {text : String} {e : Error} : fs.readText s source = .ok text →
      Source.assemble text = .error e → AssembleEnds fs s source binary log (.error e) s
  /-- The bytecode cannot be written. -/
  | noBinary {text : String} {p : Program} {e : FileError} : fs.readText s source = .ok text →
      Source.assemble text = .ok p → (fs.write s binary (Bytecode.encode p)).1 = .error e →
      AssembleEnds fs s source binary log (.error (.file e))
        (fs.write s binary (Bytecode.encode p)).2
  /-- The bytecode is written, and the log cannot be. -/
  | noLog {text : String} {p : Program} {e : FileError} : fs.readText s source = .ok text →
      Source.assemble text = .ok p → (fs.write s binary (Bytecode.encode p)).1 = .ok () →
      (fs.write (fs.write s binary (Bytecode.encode p)).2 log (logBytes text)).1 = .error e →
      AssembleEnds fs s source binary log (.error (.file e))
        (fs.write (fs.write s binary (Bytecode.encode p)).2 log (logBytes text)).2
  /-- Both are written. -/
  | done {text : String} {p : Program} : fs.readText s source = .ok text →
      Source.assemble text = .ok p → (fs.write s binary (Bytecode.encode p)).1 = .ok () →
      (fs.write (fs.write s binary (Bytecode.encode p)).2 log (logBytes text)).1 = .ok () →
      AssembleEnds fs s source binary log (.ok p)
        (fs.write (fs.write s binary (Bytecode.encode p)).2 log (logBytes text)).2

/-- A text is compiled as it is assembled. -/
theorem compile_of_text {content : Bytes} {text : String} (h : Text.ofUtf8? content = some text) :
    compile content = (Source.assemble text).map fun _ => (Assembler.empty.assemble text).2 := by
  rw [compile, h]
  simp only [Assembler.assemble, Source.assemble]
  cases Source.statements text <;> rfl

/-- Assembling ends in one of the listed ways. -/
theorem assembleEnds_performIn (fs : FileSystem) (trace : Bool) (source binary log : String)
    (s : fs.State) :
    AssembleEnds fs s source binary log
      ((assemble trace source binary log).performIn fs s).result
      ((assemble trace source binary log).performIn fs s).state := by
  rw [assemble, Action.performIn]
  cases hread : fs.read s source with
  | error e => exact .unread (by rw [FileSystem.readText, hread])
  | ok content =>
    cases htext : Text.ofUtf8? content with
    | none =>
      have hcompile : compile content = .error (.file .notText) := by rw [compile, htext]
      simp only [hcompile]
      exact .unread (by rw [FileSystem.readText, hread]; simp only [htext])
    | some text =>
      have hsource : fs.readText s source = .ok text := by
        rw [FileSystem.readText, hread]
        simp only [htext]
      cases hp : Source.assemble text with
      | error e =>
        have hcompile : compile content = .error e := by
          rw [compile_of_text htext, hp]
          rfl
        simp only [hcompile]
        exact .refused hsource hp
      | ok p =>
        have hcompile : compile content = .ok (Assembler.empty.assemble text).2 := by
          rw [compile_of_text htext, hp]
          rfl
        have hbytes : (Assembler.empty.assemble text).2.binary = Bytecode.encode p := by
          rw [Assembler.binary, Assembler.program_of_assemble hp]
        have hlogBytes : Text.utf8 (Log.render (Assembler.empty.assemble text).2.log) =
            logBytes text := rfl
        simp only [hcompile, Action.result_performIn_note, Action.state_performIn_note,
          Action.performIn, hbytes, hlogBytes]
        cases hbinary : (fs.write s binary (Bytecode.encode p)).1 with
        | error e => exact .noBinary hsource hp hbinary
        | ok =>
          simp only [Action.performIn]
          cases hlog : (fs.write (fs.write s binary (Bytecode.encode p)).2 log
              (logBytes text)).1 with
          | error e => exact .noLog hsource hp hbinary hlog
          | ok =>
            simp only [Action.result_performIn_note, Action.state_performIn_note,
              Action.performIn, Assembler.program_of_assemble hp]
            exact .done hsource hp hbinary hlog

/-- Everything that assembling does can be done but for the last write, that of the log; the program
    is given. -/
def OnlyLogFails (fs : FileSystem) (s : fs.State) (source binary log : String) (p : Program) :
    Prop :=
  ∃ text content e, fs.readText s source = .ok text ∧ Source.assemble text = .ok p ∧
    Text.ofUtf8? content = some (Log.render (Assembler.empty.assemble text).2.log) ∧
    (fs.write s binary (Bytecode.encode p)).1 = .ok () ∧
    (fs.write (fs.write s binary (Bytecode.encode p)).2 log content).1 = .error e

/-- What assembling owes to the files, given its result and the state afterwards. -/
structure AssembleEffects (fs : FileSystem) (s : fs.State) (source binary log : String)
    (result : Except Error Program) (after : fs.State) : Prop where
  /-- If it fails, no file changes, unless all but the log could be written. -/
  unchanged_of_error : ∀ e, result = .error e →
    (¬ ∃ p, OnlyLogFails fs s source binary log p) → fs.Unchanged s after
  /-- If only the log cannot be written, it fails, and the bytecode is complete. -/
  of_onlyLogFails : ∀ p, OnlyLogFails fs s source binary log p →
    (∃ e, result = .error e) ∧ fs.Holds after binary (Bytecode.encode p) ∧
      fs.ChangesOnly [binary] s after
  /-- If it succeeds, its program is that of the text that the source had before; the log is
      complete, and so is the bytecode unless both go to the same file. -/
  of_ok : ∀ p, result = .ok p → ∃ text,
    fs.readText s source = .ok text ∧ Source.assemble text = .ok p ∧
      fs.HoldsText after log (Log.render (Assembler.empty.assemble text).2.log) ∧
      (fs.locate? after binary ≠ fs.locate? after log →
        fs.Holds after binary (Bytecode.encode p)) ∧
      fs.ChangesOnly [log, binary] s after
  /-- It succeeds if nothing is in its way. -/
  ok_of : ∀ text p content, fs.readText s source = .ok text → Source.assemble text = .ok p →
    Text.ofUtf8? content = some (Log.render (Assembler.empty.assemble text).2.log) →
    (fs.write s binary (Bytecode.encode p)).1 = .ok () →
    (fs.write (fs.write s binary (Bytecode.encode p)).2 log content).1 = .ok () →
      result = .ok p

/-- Every step of assembling has one outcome, so there is one way to end. -/
theorem AssembleEnds.unique {fs : FileSystem} {s : fs.State} {source binary log : String}
    {r₁ r₂ : Except Error Program} {s₁ s₂ : fs.State}
    (h₁ : AssembleEnds fs s source binary log r₁ s₁)
    (h₂ : AssembleEnds fs s source binary log r₂ s₂) : r₁ = r₂ ∧ s₁ = s₂ := by
  cases h₁ <;> cases h₂ <;> simp_all

theorem AssembleEnds.effects {fs : FileSystem} {s after : fs.State} {source binary log : String}
    {result : Except Error Program} (h : AssembleEnds fs s source binary log result after) :
    AssembleEffects fs s source binary log result after where
  unchanged_of_error := by
    rintro e rfl hnot
    cases h with
    | unread => exact .refl s
    | refused => exact .refl s
    | noBinary _ _ hbinary => exact FileSystem.unchanged_of_write_error hbinary
    | noLog hread hp hbinary hlog =>
      exact absurd ⟨_, _, _, _, hread, hp, Text.ofUtf8?_utf8 _, hbinary, hlog⟩ hnot
  of_onlyLogFails := by
    rintro p ⟨text, content, e, hread, hp, hcontent, hbinary, hlog⟩
    obtain rfl : content = logBytes text := Text.ofUtf8?_eq_some_iff.1 hcontent
    obtain ⟨rfl, rfl⟩ := h.unique (.noLog hread hp hbinary hlog)
    exact ⟨⟨_, rfl⟩, (FileSystem.holds_of_write hbinary).write_error hlog,
      ((FileSystem.ChangesOnly.refl s).write hbinary).write_error hlog⟩
  of_ok := by
    rintro p rfl
    cases h with
    | done hread hp hbinary hlog =>
      exact ⟨_, hread, hp, FileSystem.holdsText_of_write hlog,
        (FileSystem.holds_of_write hbinary).write hlog,
        ((FileSystem.ChangesOnly.refl s).write hbinary).write hlog⟩
  ok_of := by
    intro text p content hread hp hcontent hbinary hlog
    obtain rfl : content = logBytes text := Text.ofUtf8?_eq_some_iff.1 hcontent
    exact (h.unique (.done hread hp hbinary hlog)).1

/-! ## Interpreting -/

/-- The bytes that are written for a window. -/
def cellBytes (cells : List Cell) : Bytes := Text.utf8 (Cell.renderList cells)

/-- How interpreting may end, in a given state of the files: with a result, in a state. -/
inductive InterpretEnds (fs : FileSystem) (s : fs.State) (binary result : String) (w : Window)
    (config : Config) : Except Error Machine → fs.State → Prop
  /-- The bytecode cannot be read. -/
  | unread {e : FileError} : fs.read s binary = .error e →
      InterpretEnds fs s binary result w config (.error (.file e)) s
  /-- The machine cannot be set up. -/
  | tooLarge {bytes : Bytes} : fs.read s binary = .ok bytes →
      Machine.capacity ≤ config.memorySize →
      InterpretEnds fs s binary result w config (.error .capacityOverflow) s
  /-- The bytecode is refused, or it fails. -/
  | failed {bytes : Bytes} {e : Error} : fs.read s binary = .ok bytes →
      config.memorySize < Machine.capacity →
      ((Machine.fresh config).execute bytes w).result = .error e →
      InterpretEnds fs s binary result w config (.error e) s
  /-- The cells cannot be written. -/
  | noResult {bytes : Bytes} {cells : List Cell} {e : FileError} : fs.read s binary = .ok bytes →
      config.memorySize < Machine.capacity →
      ((Machine.fresh config).execute bytes w).result = .ok cells →
      (fs.write s result (cellBytes cells)).1 = .error e →
      InterpretEnds fs s binary result w config (.error (.file e))
        (fs.write s result (cellBytes cells)).2
  /-- The cells are written. -/
  | done {bytes : Bytes} {cells : List Cell} : fs.read s binary = .ok bytes →
      config.memorySize < Machine.capacity →
      ((Machine.fresh config).execute bytes w).result = .ok cells →
      (fs.write s result (cellBytes cells)).1 = .ok () →
      InterpretEnds fs s binary result w config
        (.ok ((Machine.fresh config).execute bytes w).machine)
        (fs.write s result (cellBytes cells)).2

/-- Interpreting ends in one of the listed ways. -/
theorem interpretEnds_performIn (fs : FileSystem) (trace : Bool) (binary result : String)
    (w : Window) (config : Config) (s : fs.State) :
    InterpretEnds fs s binary result w config
      ((interpret trace binary result w config).performIn fs s).result
      ((interpret trace binary result w config).performIn fs s).state := by
  rw [interpret, Action.performIn]
  cases hread : fs.read s binary with
  | error e => exact .unread hread
  | ok bytes =>
    by_cases hsize : config.memorySize < Machine.capacity
    · have hmachine : Machine.allocate config = .ok (Machine.fresh config) := if_pos hsize
      simp only [hmachine, outcome_execute, Action.result_performIn_note,
        Action.state_performIn_note]
      cases hcells : ((Machine.fresh config).execute bytes w).result with
      | error e => exact .failed hread hsize hcells
      | ok cells =>
        have hbytes : Text.utf8 (Cell.renderList cells) = cellBytes cells := rfl
        simp only [Action.performIn, hbytes]
        cases hresult : (fs.write s result (cellBytes cells)).1 with
        | error e => exact .noResult hread hsize hcells hresult
        | ok => exact .done hread hsize hcells hresult
    · have hmachine : Machine.allocate config = .error .capacityOverflow := if_neg hsize
      simp only [hmachine]
      exact .tooLarge hread (Nat.le_of_not_lt hsize)

/-- Every step of interpreting has one outcome, so there is one way to end. -/
theorem InterpretEnds.unique {fs : FileSystem} {s : fs.State} {binary result : String} {w : Window}
    {config : Config} {r₁ r₂ : Except Error Machine} {s₁ s₂ : fs.State}
    (h₁ : InterpretEnds fs s binary result w config r₁ s₁)
    (h₂ : InterpretEnds fs s binary result w config r₂ s₂) : r₁ = r₂ ∧ s₁ = s₂ := by
  cases h₁ <;> cases h₂ <;> simp_all
  all_goals omega

/-- What interpreting owes to the files, given its result and the state afterwards. -/
structure InterpretEffects (fs : FileSystem) (s : fs.State) (binary result : String) (w : Window)
    (config : Config) (outcome : Except Error Machine) (after : fs.State) : Prop where
  /-- If it fails, no file changes. -/
  unchanged_of_error : ∀ e, outcome = .error e → fs.Unchanged s after
  /-- If it succeeds, the bytecode that was there before ran well on a fresh machine, and the cells
      of the window are written, whichever file they are written to. -/
  of_ok : ∀ machine, outcome = .ok machine → ∃ bytes cells,
    fs.read s binary = .ok bytes ∧
      (Machine.fresh config).execute bytes w = ⟨.ok cells, machine⟩ ∧
      fs.HoldsText after result (Cell.renderList cells) ∧ fs.ChangesOnly [result] s after
  /-- It succeeds if nothing is in its way. -/
  ok_of : ∀ bytes cells machine content, fs.read s binary = .ok bytes →
    config.memorySize < Machine.capacity →
    (Machine.fresh config).execute bytes w = ⟨.ok cells, machine⟩ →
    Text.ofUtf8? content = some (Cell.renderList cells) →
    (fs.write s result content).1 = .ok () → outcome = .ok machine

theorem InterpretEnds.effects {fs : FileSystem} {s after : fs.State} {binary result : String}
    {w : Window} {config : Config} {outcome : Except Error Machine}
    (h : InterpretEnds fs s binary result w config outcome after) :
    InterpretEffects fs s binary result w config outcome after where
  unchanged_of_error := by
    rintro e rfl
    cases h with
    | unread => exact .refl s
    | tooLarge => exact .refl s
    | failed => exact .refl s
    | noResult _ _ _ hresult => exact FileSystem.unchanged_of_write_error hresult
  of_ok := by
    rintro machine rfl
    cases h with
    | @done bytes cells hread _ hcells hresult =>
      refine ⟨bytes, cells, hread, ?_, FileSystem.holdsText_of_write hresult,
        (FileSystem.ChangesOnly.refl s).write hresult⟩
      rw [← hcells]
  ok_of := by
    intro bytes cells machine content hread hsize hexecute hcontent hresult
    obtain rfl : content = cellBytes cells := Text.ofUtf8?_eq_some_iff.1 hcontent
    have hcells : ((Machine.fresh config).execute bytes w).result = .ok cells := by rw [hexecute]
    have hmachine := (h.unique (.done hread hsize hcells hresult)).1
    rwa [hexecute] at hmachine

/-! ## Both jobs -/

/-- **A job writes only what it is sure of.** This is so in every file system and wherever the paths
    lead. Interpreting that fails leaves every file as it was; so does assembling, unless it is only
    the log that cannot be written, and then the bytecode is complete. A job that succeeds has made
    what it writes from its input as that was before. -/
theorem files_after (fs : FileSystem) (trace : Bool) (s : fs.State) :
    (∀ source binary log : String, AssembleEffects fs s source binary log
      ((assemble trace source binary log).performIn fs s).result
      ((assemble trace source binary log).performIn fs s).state) ∧
    ∀ (binary result : String) (w : Window) (config : Config),
      InterpretEffects fs s binary result w config
        ((interpret trace binary result w config).performIn fs s).result
        ((interpret trace binary result w config).performIn fs s).state := by
  refine ⟨fun source binary log => ?_, fun binary result w config => ?_⟩
  · exact (assembleEnds_performIn fs trace source binary log s).effects
  · exact (interpretEnds_performIn fs trace binary result w config s).effects

end Job

end Accumulator
