import Accumulator.Disk.Basic
set_option autoImplicit false

/-! # Paths

A path is a list of names between slashes, followed one by one from the root of the disk. The name
`.` stays where it is and `..` goes up, from the root to the root itself. Slashes in a row count
as one, and one at the start changes nothing.

Every name is followed from a directory: a name below a file is refused, and so is one below a place
that does not exist. A slash at the end asks for a directory. The empty path leads nowhere.

To be read, a path must lead to a file. To be written, it must lead to a file or to a free name in a
directory. -/

namespace Accumulator

/-- The names of a path, and whether a slash follows the last one. -/
structure Path where
  names : List String
  slashed : Bool
deriving DecidableEq, Repr

/-- The path that a text writes; the empty text writes none. -/
def Path.parse? (text : String) : Option Path :=
  if text = "" then none
  else
    some ⟨((text.toList.splitOn '/').filter fun name => !name.isEmpty).map String.ofList,
      text.toList.getLast? == some '/'⟩

namespace Disk

/-! ## Following names -/

/-- The location that a name leads to from a directory. -/
def enter (here : Location) (name : String) : Location :=
  if name = "." then here else if name = ".." then here.dropLast else here ++ [name]

/-- Follows names, each of them from a directory. There may be nothing at the location that the last
    one leads to. -/
def follow (d : Disk) (here : Location) : List String → Except FileError Location
  | [] => .ok here
  | name :: rest =>
    match d.node? here with
    | none => .error .notFound
    | some (.file _) => .error .notADirectory
    | some .directory => d.follow (enter here name) rest

/-! ## Reading and writing -/

/-- The content of the file at the end of a path. -/
def read (d : Disk) (text : String) : Except FileError Bytes :=
  match Path.parse? text with
  | none => .error .notFound
  | some path =>
    match d.follow [] path.names with
    | .error e => .error e
    | .ok location =>
      match d.node? location with
      | none => .error .notFound
      | some .directory => .error .isADirectory
      | some (.file content) => if path.slashed then .error .notADirectory else .ok content

/-- Whether a last name can only stand for a directory. -/
def isDirectoryName (path : Path) (name : String) : Bool :=
  path.slashed || name == "." || name == ".."

/-- The location of the file that writing to a path would replace or make. -/
def target (d : Disk) (text : String) : Except FileError Location :=
  match Path.parse? text with
  | none => .error .notFound
  | some path =>
    match path.names.getLast? with
    | none => .error .isADirectory
    | some name =>
      match d.follow [] path.names.dropLast with
      | .error e => .error e
      | .ok parent =>
        match d.node? parent with
        | none => .error .notFound
        | some (.file _) => .error .notADirectory
        | some .directory =>
          if isDirectoryName path name then .error .isADirectory
          else if d.node? (parent ++ [name]) = some .directory then .error .isADirectory
          else .ok (parent ++ [name])

/-- The disk after a file was written: its content is replaced if it exists, else it is made. -/
def write (d : Disk) (text : String) (content : Bytes) : Except FileError Disk :=
  (d.target text).map fun location => d.put location (.file content)

/-- A file is never written at the root. -/
theorem target_ne_root {d : Disk} {text : String} {location : Location}
    (h : d.target text = .ok location) : location ≠ [] := by
  unfold target at h
  repeat' split at h
  all_goals simp at h
  rw [← h]
  simp

/-- Writing changes what stands at the target, and nothing else. -/
theorem node?_write {d after : Disk} {text : String} {content : Bytes}
    (h : d.write text content = .ok after) :
    ∃ location, d.target text = .ok location ∧ ∀ other,
      after.node? other = if other = location then some (.file content) else d.node? other := by
  unfold write at h
  cases htarget : d.target text with
  | error e => simp [htarget, Except.map] at h
  | ok location =>
    simp only [htarget, Except.map, Except.ok.injEq] at h
    subst h
    exact ⟨location, rfl, fun other => node?_put (target_ne_root htarget) _ other⟩

end Disk

end Accumulator
