import Accumulator.CommandLine
set_option autoImplicit false

/-! # The program

The command line carried out on the files of the computer. -/

namespace Accumulator

/-- Whether the program tells what its jobs do. -/
def tracing : Bool := false

/-- The cause that a failed access to a file has. The number that the system gives for a directory
    in the place of a file comes with either sign. -/
def FileError.ofSystem : IO.Error → FileError
  | .noFileOrDirectory .. => .notFound
  | .inappropriateType _ number _ =>
    if number = 21 ∨ number = 0 - 21 then .isADirectory else .notADirectory
  | e => .other e.toString

/-- The answer to an access to a file. -/
def answerOf {α : Type} (access : IO α) : IO (Except FileError α) := do
  match ← access.toBaseIO with
  | .ok a => return .ok a
  | .error e => return .error (FileError.ofSystem e)

/-- Carries an action out. -/
def Action.perform {α : Type} : Action α → IO α
  | .done result => pure result
  | .read path next => do
    let answer ← answerOf (IO.FS.readBinFile path)
    (next (answer.map fun content => content.data.toList)).perform
  | .write path content next => do
    let answer ← answerOf (IO.FS.writeBinFile path ⟨content.toArray⟩)
    (next answer).perform
  | .tell text next => do
    IO.print text
    next.perform

end Accumulator

/-- Runs the command line. -/
def main (arguments : List String) : IO UInt32 := do
  let exit ← (Accumulator.CommandLine.run Accumulator.tracing arguments).perform
  IO.eprint exit.diagnostics
  return UInt32.ofNat exit.code
