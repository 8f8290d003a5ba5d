import Accumulator.Arguments
import Accumulator.Job
set_option autoImplicit false

/-! # The command line

A command line runs one job, or answers a request for help or for the version, and ends with an exit
code: zero if all went well, one if the job failed, two if the arguments were refused, and a hundred
and one if the machine that was asked for cannot be set up.

Standard output has the help or the version that was asked for, or what a traced job tells;
everything else that is said goes to the diagnostics. -/

namespace Accumulator

/-- How a command line ends. -/
structure Exit where
  code : Nat
  diagnostics : String
deriving DecidableEq, Repr

namespace Exit

/-- The end of a command line that did what it was asked for. -/
def success : Exit := ⟨0, ""⟩

/-- The end of a job that failed, the context saying at what. -/
def failure (context : String) : Error → Exit
  | .capacityOverflow => ⟨101, String.join [Error.capacityOverflow.message, "\n"]⟩
  | e => ⟨1, String.join ["Error: ", context, "\n\nCaused by:\n    ", e.message, "\n"]⟩

/-- The end of a job. -/
def ofResult {α : Type} (context : String) : Except Error α → Exit
  | .ok _ => success
  | .error e => failure context e

end Exit

namespace CommandLine

/-- The line that gives the program's name and version. -/
def versionLine : String := "uvm 0.1.0\n"

/-- How the program is called. -/
def usage : String :=
  String.join [
    "Usage:\n",
    "  uvm assemble SOURCE BINARY LOG\n",
    "  uvm interpret [--memory-size CELLS] [--strict] BINARY RESULT START:END\n",
    "  uvm --help | --version\n"]

/-- Does what was requested. -/
def answer (trace : Bool) : Request → Action Exit
  | .help => .tell usage (.done .success)
  | .version => .tell versionLine (.done .success)
  | .assemble source binary log =>
    (Job.assemble trace source binary log).map
      (Exit.ofResult (String.join ["failed to assemble ", source]))
  | .interpret binary result window config =>
    (Job.interpret trace binary result window config).map
      (Exit.ofResult (String.join ["failed to interpret ", binary]))

/-- Runs a command line. -/
def run (trace : Bool) (arguments : List String) : Action Exit :=
  match Arguments.read arguments with
  | .error why =>
    .done ⟨2, String.join ["error: ", why.message, "\n\n", usage]⟩
  | .ok request => answer trace request

end CommandLine

end Accumulator
