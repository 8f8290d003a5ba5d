import Accumulator.Disk.Path
set_option autoImplicit false

/-! # Actions

An action is a computation that may read and write whole files and may tell what it does. It is a
value: what the outside answers to a read or a write is handed to the rest of the action, so that
the same action can be carried out on a `Disk`, as here, or on the files of a computer. -/

namespace Accumulator

/-- A computation that reads and writes whole files. -/
inductive Action (α : Type) where
  /-- End with a result. -/
  | done (result : α)
  /-- Read the file at a path, and go on with its content. -/
  | read (path : String) (next : Except FileError Bytes → Action α)
  /-- Write the file at a path, and go on with whether that was possible. -/
  | write (path : String) (content : Bytes) (next : Except FileError Unit → Action α)
  /-- Tell something, and go on. -/
  | tell (text : String) (next : Action α)

/-- What an action carried out on a disk comes to: its result, the disk afterwards, and all that was
    told. -/
structure Performed (α : Type) where
  result : α
  disk : Disk
  told : String

namespace Action

/-- The action with its result passed through a function. -/
def map {α β : Type} (f : α → β) : Action α → Action β
  | .done result => .done (f result)
  | .read path next => .read path fun answer => (next answer).map f
  | .write path content next => .write path content fun answer => (next answer).map f
  | .tell text next => .tell text (next.map f)

/-- Tell something if tracing is on, and go on. -/
def note {α : Type} (trace : Bool) (text : String) (next : Action α) : Action α :=
  if trace then .tell text next else next

/-- Carries an action out on a disk. A write that fails leaves the disk as it is. -/
def performOn {α : Type} (d : Disk) : Action α → Performed α
  | .done result => ⟨result, d, ""⟩
  | .read path next => (next (d.read path)).performOn d
  | .write path content next =>
    match d.write path content with
    | .error e => (next (.error e)).performOn d
    | .ok after => (next (.ok ())).performOn after
  | .tell text next =>
    let later := next.performOn d
    ⟨later.result, later.disk, text ++ later.told⟩

end Action

end Accumulator
