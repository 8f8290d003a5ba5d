import Accumulator.Bytecode
set_option autoImplicit false

/-! # A disk

A disk is a tree of directories with files in it. It is held flat: every place of the tree is named
by the list of names that lead to it from the root, its *location*, and the disk says what stands at
a location. The root is always a directory.

All that proofs need to know of this representation is the equation `node?_put`: a node that is put
somewhere stands there, and everything else stands where it stood. -/

namespace Accumulator

/-- The names that lead from the root of a disk to a place on it. -/
abbrev Location := List String

/-- What stands at a location. -/
inductive Node where
  | directory
  | file (content : Bytes)
deriving DecidableEq, Repr

/-- The places of a disk other than its root. -/
structure Disk where
  places : List (Location × Node)
deriving DecidableEq, Repr

namespace Disk

/-- A disk with nothing on it but its root. -/
def empty : Disk := ⟨[]⟩

/-- What stands at a location, if anything does. -/
def node? (d : Disk) (location : Location) : Option Node :=
  if location = [] then some .directory else d.places.lookup location

/-- The disk with a node put at a location. -/
def put (d : Disk) (location : Location) (node : Node) : Disk :=
  ⟨(location, node) :: d.places.filter fun place => place.1 != location⟩

theorem lookup_filter_ne {location other : Location} (h : other ≠ location)
    (places : List (Location × Node)) :
    (places.filter fun place => place.1 != location).lookup other = places.lookup other := by
  induction places with
  | nil => rfl
  | cons place places ih =>
    obtain ⟨here, node⟩ := place
    by_cases hhere : here = location
    · subst hhere
      have hother : (other == here) = false := by simpa using h
      simp only [List.filter_cons, bne_self_eq_false, Bool.false_eq_true, if_false,
        List.lookup_cons, hother, ih]
    · have hkeep : (here != location) = true := by simpa using hhere
      simp only [List.filter_cons, hkeep, if_true, List.lookup_cons, ih]

/-- After a node was put at a location below the root, that location holds it and every other one
    holds what it held. -/
theorem node?_put {d : Disk} {location : Location} (hroot : location ≠ []) (node : Node)
    (other : Location) :
    (d.put location node).node? other = if other = location then some node else d.node? other := by
  by_cases h : other = location
  · subst h
    simp [node?, put, hroot]
  · have hne : (other == location) = false := by simpa using h
    simp only [node?, put, if_neg h, List.lookup_cons, hne, lookup_filter_ne h]

/-- The directories on the way to a location, from the root down. -/
def parents (location : Location) : List Location :=
  ((List.range location.length).map location.take).filter fun parent => !parent.isEmpty

/-- The disk with a node put at a location, and directories on the way to it where nothing is. -/
def place (d : Disk) (location : Location) (node : Node) : Disk :=
  let missing := (parents location).filter fun parent => (d.node? parent).isNone
  (missing.foldl (fun made parent => made.put parent .directory) d).put location node

/-- The files of a disk, with their locations. -/
def files (d : Disk) : List (Location × Bytes) :=
  d.places.filterMap fun (location, node) =>
    match node with
    | .directory => none
    | .file content => some (location, content)

/-- The files that an earlier state of the disk did not have, or had with another content. -/
def changes (before after : Disk) : List (Location × Bytes) :=
  after.files.filter fun (location, content) => before.node? location != some (.file content)

end Disk

end Accumulator
