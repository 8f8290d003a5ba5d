import Accumulator.CommandLine
import Accumulator.Proofs.Arguments
import Accumulator.Proofs.Bytecode
import Accumulator.Proofs.Diagnostics
import Accumulator.Proofs.Faults
import Accumulator.Proofs.Jobs
import Mathlib.Algebra.Group.Nat.Defs
set_option autoImplicit false

/-! # How a command line ends

A traced command line tells more than a plain one and does the same: with all that is told left out,
the two are one action (`CommandLine.silent_run`). So they end alike and do the same to the files,
whatever the files are.

The exit code tells how a command line ended. Two stands for arguments that were refused, zero for a
job that did what it was asked for, a hundred and one for a machine that cannot be set up, and one
for every other failure, whose error is then found in the diagnostics. An error of a job can only be
taken for the machine that cannot be set up if it is that: nothing else that a job does fails in
this way (`Job.AssembleEnds.ne_capacityOverflow`, `Job.InterpretEnds.capacityOverflow_iff`). -/

namespace Accumulator

/-! ## Actions without what they tell -/

namespace Action

variable {α β : Type}

/-- The action that tells nothing and does the rest. -/
def silent : Action α → Action α
  | .done result => .done result
  | .read path next => .read path fun answer => (next answer).silent
  | .write path content next => .write path content fun answer => (next answer).silent
  | .tell _ next => next.silent

@[simp]
theorem silent_map (f : α → β) (a : Action α) : (a.map f).silent = a.silent.map f := by
  induction a with
  | done result => rfl
  | read path next ih => simp only [map, silent, ih]
  | write path content next ih => simp only [map, silent, ih]
  | tell text next ih => simp only [map, silent, ih]

@[simp]
theorem silent_note (trace : Bool) (text : String) (next : Action α) :
    (note trace text next).silent = next.silent := by
  cases trace <;> rfl

/-- What an action tells has no influence on what it comes to. -/
theorem performIn_silent (fs : FileSystem) (a : Action α) (s : fs.State) :
    (a.silent.performIn fs s).result = (a.performIn fs s).result ∧
      (a.silent.performIn fs s).state = (a.performIn fs s).state := by
  induction a generalizing s with
  | done result => exact ⟨rfl, rfl⟩
  | read path next ih => exact ih _ s
  | write path content next ih => exact ih _ _
  | tell text next ih => exact ih s

/-- Actions that differ in what they tell come to the same. -/
theorem performIn_congr {a b : Action α} (h : a.silent = b.silent) (fs : FileSystem)
    (s : fs.State) :
    (a.performIn fs s).result = (b.performIn fs s).result ∧
      (a.performIn fs s).state = (b.performIn fs s).state := by
  obtain ⟨haresult, hastate⟩ := performIn_silent fs a s
  obtain ⟨hbresult, hbstate⟩ := performIn_silent fs b s
  rw [← haresult, ← hastate, ← hbresult, ← hbstate, h]
  exact ⟨rfl, rfl⟩

end Action

namespace Job

theorem silent_assemble (trace : Bool) (source binary log : String) :
    (assemble trace source binary log).silent = (assemble false source binary log).silent := by
  cases trace with
  | false => rfl
  | true =>
    unfold assemble
    refine congrArg (Action.read source) (funext fun answer => ?_)
    cases answer with
    | error e => rfl
    | ok content =>
      cases hcompile : compile content with
      | error e => simp only [hcompile]
      | ok assembler =>
        simp only [hcompile, Action.silent_note]
        refine congrArg (Action.write binary assembler.binary) (funext fun written => ?_)
        cases written with
        | error e => rfl
        | ok =>
          refine congrArg (Action.write log _) (funext fun logged => ?_)
          cases logged <;> rfl

theorem silent_interpret (trace : Bool) (binary result : String) (w : Window) (config : Config) :
    (interpret trace binary result w config).silent =
      (interpret false binary result w config).silent := by
  unfold interpret
  refine congrArg (Action.read binary) (funext fun answer => ?_)
  cases answer with
  | error e => rfl
  | ok bytes =>
    cases Machine.allocate config with
    | error e => rfl
    | ok machine => simp

end Job

namespace CommandLine

/-- A traced command line does what the plain one does. -/
theorem silent_run (trace : Bool) (arguments : List String) :
    (run trace arguments).silent = (run false arguments).silent := by
  rw [run, run]
  cases Arguments.read arguments with
  | error why => rfl
  | ok request =>
    cases request with
    | help => rfl
    | version => rfl
    | assemble source binary log =>
      simp only [answer, Action.silent_map]
      rw [Job.silent_assemble]
    | interpret binary result w config =>
      simp only [answer, Action.silent_map]
      rw [Job.silent_interpret]

end CommandLine

/-! ## Errors of jobs -/

namespace Job

variable {fs : FileSystem} {s after : fs.State}

theorem AssembleEnds.ne_capacityOverflow {source binary log : String}
    {result : Except Error Program} (h : AssembleEnds fs s source binary log result after) :
    result ≠ .error .capacityOverflow := by
  rintro rfl
  cases h with
  | unread hread =>
    rw [FileSystem.readText] at hread
    split at hread
    · simp at hread
    · split at hread <;> simp at hread
  | refused _ hrefused =>
    obtain ⟨_, _, _, -, -, -, _, -, hdiagnosis⟩ := Source.assemble_eq_error_iff.1 hrefused
    cases hdiagnosis

theorem result_execute_ne (m : Machine) (bytes : Bytes) (w : Window) :
    (m.execute bytes w).result ≠ .error .capacityOverflow := by
  intro h
  rw [Machine.execute] at h
  cases hload : m.load bytes with
  | error e =>
    obtain ⟨offset, length, rfl⟩ := Bytecode.exists_truncated_of_decode hload
    simp [hload] at h
  | ok p =>
    simp only [hload, Machine.select, Source.map_eq_error_iff] at h
    obtain ⟨i, size, position, hfault⟩ := Machine.exists_fault_of_run h
    rw [Instruction.fault] at hfault
    split at hfault <;> simp at hfault

/-- Interpreting fails to set the machine up if and only if there is bytecode and too much memory
    is asked for. -/
theorem InterpretEnds.capacityOverflow_iff {binary result : String} {w : Window} {config : Config}
    {outcome : Except Error Machine}
    (h : InterpretEnds fs s binary result w config outcome after) :
    outcome = .error .capacityOverflow ↔
      (∃ bytes, fs.read s binary = .ok bytes) ∧ Machine.capacity ≤ config.memorySize := by
  constructor
  · rintro rfl
    cases h with
    | tooLarge hread hsize => exact ⟨⟨_, hread⟩, hsize⟩
    | failed _ _ hfailed => exact absurd hfailed (result_execute_ne _ _ _)
  · rintro ⟨⟨bytes, hread⟩, hsize⟩
    exact (h.unique (.tooLarge hread hsize)).1

end Job

/-! ## Exit codes -/

namespace Exit

variable {α : Type} (context : String)

/-- The end of a job that failed with an ordinary error. -/
theorem failure_of_ne {e : Error} (h : e ≠ .capacityOverflow) :
    failure context e =
      ⟨1, String.join ["Error: ", context, "\n\nCaused by:\n    ", e.message, "\n"]⟩ := by
  cases e with
  | capacityOverflow => exact absurd rfl h
  | _ => rfl

@[simp]
theorem code_failure_ne_zero (e : Error) : (failure context e).code ≠ 0 := by
  cases e <;> simp [failure]

@[simp]
theorem code_failure_eq_101_iff (e : Error) :
    (failure context e).code = 101 ↔ e = .capacityOverflow := by
  cases e <;> simp [failure]

@[simp]
theorem code_ofResult_ne_two (result : Except Error α) : (ofResult context result).code ≠ 2 := by
  cases result with
  | ok a => simp [ofResult, success]
  | error e => cases e <;> simp [ofResult, failure]

@[simp]
theorem code_ofResult_eq_zero_iff (result : Except Error α) :
    (ofResult context result).code = 0 ↔ ∃ a, result = .ok a := by
  cases result with
  | ok a => simp [ofResult, success]
  | error e => simp [ofResult]

@[simp]
theorem code_ofResult_eq_101_iff (result : Except Error α) :
    (ofResult context result).code = 101 ↔ result = .error .capacityOverflow := by
  cases result with
  | ok a => simp [ofResult, success]
  | error e => simp [ofResult]

end Exit

namespace CommandLine

/-- How a command line ends, given what the job that it carries out has come to. -/
structure Reports {α : Type} {fs : FileSystem} (context : String)
    (job : fs.Aftermath (Except Error α)) (exit : Exit) (after : fs.State) : Prop where
  /-- The files are as the job has left them. -/
  state_eq : after = job.state
  /-- The exit code is zero if and only if the job has succeeded. -/
  code_eq_zero_iff : exit.code = 0 ↔ ∃ a, job.result = .ok a
  /-- If the exit code is neither zero nor a hundred and one, it is one, and the diagnostics give
      the context and the error of the job. -/
  of_failure : exit.code ≠ 0 → exit.code ≠ 101 → ∃ e, job.result = .error e ∧
    exit = ⟨1, String.join ["Error: ", context, "\n\nCaused by:\n    ", e.message, "\n"]⟩

/-- What the exit code stands for, given how a command line ends. -/
structure Classifies (fs : FileSystem) (s : fs.State) (trace : Bool) (arguments : List String)
    (exit : Exit) (after : fs.State) : Prop where
  /-- The exit code is two if and only if the arguments are refused. -/
  code_eq_two_iff : exit.code = 2 ↔ ∃ why, Arguments.read arguments = .error why
  /-- The exit code is a hundred and one if and only if there is bytecode to interpret and its
      machine cannot be set up. -/
  code_eq_101_iff : exit.code = 101 ↔ ∃ binary result w config bytes,
    Arguments.read arguments = .ok (.interpret binary result w config) ∧
      fs.read s binary = .ok bytes ∧ 2 ^ 60 ≤ config.memorySize
  /-- With these two exit codes the files stay as they are. -/
  unchanged : exit.code = 2 ∨ exit.code = 101 → fs.Unchanged s after
  /-- A source that is assembled. -/
  of_assemble : ∀ source binary log,
    Arguments.read arguments = .ok (.assemble source binary log) →
      Reports (String.join ["failed to assemble ", source])
        ((Job.assemble trace source binary log).performIn fs s) exit after
  /-- Bytecode that is interpreted. -/
  of_interpret : ∀ binary result w config,
    Arguments.read arguments = .ok (.interpret binary result w config) →
      Reports (String.join ["failed to interpret ", binary])
        ((Job.interpret trace binary result w config).performIn fs s) exit after

theorem reports_ofResult {α : Type} (fs : FileSystem) (context : String)
    (job : fs.Aftermath (Except Error α)) :
    Reports context job (Exit.ofResult context job.result) job.state where
  state_eq := rfl
  code_eq_zero_iff := Exit.code_ofResult_eq_zero_iff context job.result
  of_failure := by
    intro hzero hpanic
    rw [Ne, Exit.code_ofResult_eq_101_iff] at hpanic
    cases hresult : job.result with
    | ok a => simp [hresult, Exit.ofResult, Exit.success] at hzero
    | error e =>
      refine ⟨e, rfl, Exit.failure_of_ne context ?_⟩
      rintro rfl
      exact hpanic hresult

/-- A command line that carries out no job leaves the files as they are. -/
theorem classifies_of_no_job {fs : FileSystem} {s : fs.State} {trace : Bool}
    {arguments : List String} {exit : Exit}
    (htwo : exit.code = 2 ↔ ∃ why, Arguments.read arguments = .error why)
    (hpanic : exit.code ≠ 101)
    (hassemble : ∀ source binary log,
      Arguments.read arguments ≠ .ok (.assemble source binary log))
    (hinterpret : ∀ binary result w config,
      Arguments.read arguments ≠ .ok (.interpret binary result w config)) :
    Classifies fs s trace arguments exit s where
  code_eq_two_iff := htwo
  code_eq_101_iff := by
    refine iff_of_false hpanic ?_
    rintro ⟨binary, result, w, config, bytes, hread, -⟩
    exact hinterpret binary result w config hread
  unchanged := fun _ => .refl s
  of_assemble source binary log hread := absurd hread (hassemble source binary log)
  of_interpret binary result w config hread := absurd hread (hinterpret binary result w config)

theorem classifies_assemble {fs : FileSystem} {s : fs.State} {arguments : List String}
    {source binary log : String}
    (hread : Arguments.read arguments = .ok (.assemble source binary log)) (trace : Bool) :
    Classifies fs s trace arguments ((run trace arguments).performIn fs s).result
      ((run trace arguments).performIn fs s).state := by
  have hends := Job.assembleEnds_performIn fs trace source binary log s
  have hcode : (Exit.ofResult (String.join ["failed to assemble ", source])
      ((Job.assemble trace source binary log).performIn fs s).result).code ≠ 101 := by
    rw [Ne, Exit.code_ofResult_eq_101_iff]
    exact hends.ne_capacityOverflow
  simp only [run, hread, answer, Action.performIn_map]
  exact {
    code_eq_two_iff := by simp [hread]
    code_eq_101_iff := iff_of_false hcode (by simp [hread])
    unchanged := by
      rintro (htwo | hpanic)
      · exact absurd htwo (Exit.code_ofResult_ne_two _ _)
      · exact absurd hpanic hcode
    of_assemble := by
      intro source' binary' log' hread'
      rw [hread] at hread'
      cases hread'
      exact reports_ofResult fs _ _
    of_interpret := by simp [hread] }

theorem classifies_interpret {fs : FileSystem} {s : fs.State} {arguments : List String}
    {binary result : String} {w : Window} {config : Config}
    (hread : Arguments.read arguments = .ok (.interpret binary result w config)) (trace : Bool) :
    Classifies fs s trace arguments ((run trace arguments).performIn fs s).result
      ((run trace arguments).performIn fs s).state := by
  have hends := Job.interpretEnds_performIn fs trace binary result w config s
  have hcode := (Exit.code_ofResult_eq_101_iff (String.join ["failed to interpret ", binary])
    ((Job.interpret trace binary result w config).performIn fs s).result)
  simp only [run, hread, answer, Action.performIn_map]
  exact {
    code_eq_two_iff := by simp [hread]
    code_eq_101_iff := by
      rw [hcode, hends.capacityOverflow_iff]
      constructor
      · rintro ⟨⟨bytes, hbytes⟩, hsize⟩
        exact ⟨binary, result, w, config, bytes, hread, hbytes, hsize⟩
      · rintro ⟨binary', result', w', config', bytes, hread', hbytes, hsize⟩
        rw [hread] at hread'
        cases hread'
        exact ⟨⟨bytes, hbytes⟩, hsize⟩
    unchanged := by
      rintro (htwo | hpanic)
      · exact absurd htwo (Exit.code_ofResult_ne_two _ _)
      · exact hends.effects.unchanged_of_error _ (hcode.1 hpanic)
    of_assemble := by simp [hread]
    of_interpret := by
      intro binary' result' w' config' hread'
      rw [hread] at hread'
      cases hread'
      exact reports_ofResult fs _ _ }

/-- Three paths that do not look like options are assembled, and the command line ends as this
    job does. -/
theorem reports_assemble (fs : FileSystem) (s : fs.State) (trace : Bool)
    {source binary log : String}
    (hplain : Arguments.Plain source ∧ Arguments.Plain binary ∧ Arguments.Plain log)
    (hpaths : source ≠ "" ∧ binary ≠ "" ∧ log ≠ "") :
    Reports (String.join ["failed to assemble ", source])
      ((Job.assemble trace source binary log).performIn fs s)
      ((run trace ["assemble", source, binary, log]).performIn fs s).result
      ((run trace ["assemble", source, binary, log]).performIn fs s).state := by
  have hread := Arguments.read_assemble hplain hpaths
  exact (classifies_assemble hread trace).of_assemble source binary log hread

/-- Bytecode that is there can be interpreted on a machine that is too large to be set up. -/
theorem exists_code_eq_101 {fs : FileSystem} {s : fs.State} {binary : String} {bytes : Bytes}
    (hbytes : fs.read s binary = .ok bytes) (hbinary : binary ≠ "") (trace : Bool) :
    ∃ arguments, ((run trace arguments).performIn fs s).result.code = 101 := by
  obtain ⟨arguments, hread⟩ := Arguments.exists_read_interpret hbinary hbinary ⟨0, 0⟩
    (by decide : (⟨2 ^ 60, .silent⟩ : Config).memorySize < 2 ^ 64)
  exact ⟨arguments, (classifies_interpret hread trace).code_eq_101_iff.2
    ⟨_, _, _, _, bytes, hread, hbytes, Nat.le_refl _⟩⟩

/-- **Exit codes classify the ends of command lines.** Whatever the files are, a traced command line
    ends like a plain one, in exit code and diagnostics, and leaves the same files. Two stands for
    refused arguments, a hundred and one for a machine that cannot be set up, zero for a job that
    succeeds, and one for a job that fails. -/
theorem run_classified (fs : FileSystem) (s : fs.State) (arguments : List String) :
    ((run true arguments).performIn fs s).result = ((run false arguments).performIn fs s).result ∧
    ((run true arguments).performIn fs s).state = ((run false arguments).performIn fs s).state ∧
    ∀ trace, Classifies fs s trace arguments ((run trace arguments).performIn fs s).result
      ((run trace arguments).performIn fs s).state := by
  have hsame := Action.performIn_congr (silent_run true arguments) fs s
  refine ⟨hsame.1, hsame.2, fun trace => ?_⟩
  cases hread : Arguments.read arguments with
  | error why =>
    simp only [run, hread, Action.performIn]
    exact classifies_of_no_job (by simp [hread]) (by simp) (by simp [hread]) (by simp [hread])
  | ok request =>
    cases request with
    | help =>
      simp only [run, hread, answer, Action.performIn, Exit.success]
      exact classifies_of_no_job (by simp [hread]) (by simp) (by simp [hread]) (by simp [hread])
    | version =>
      simp only [run, hread, answer, Action.performIn, Exit.success]
      exact classifies_of_no_job (by simp [hread]) (by simp) (by simp [hread]) (by simp [hread])
    | assemble source binary log => exact classifies_assemble hread trace
    | interpret binary result w config => exact classifies_interpret hread trace

end CommandLine

end Accumulator
