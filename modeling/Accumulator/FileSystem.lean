import Accumulator.Action
set_option autoImplicit false

/-! # File systems

An action asks only two things of the files around it: to read the file at a path and to write the
file at a path. A `FileSystem` is anything that does this. It may refuse an access for reasons of
its own, such as missing rights or a lack of space, and it may let several paths lead to one file.
Its state holds more than the files if an access depends on more.

A write is all or nothing: it replaces the whole content of one file, or it fails and every file
keeps its content. A file that is written stays where it is, so paths that lead to a file go on
leading to it.

A `Disk` is a file system (`Disk.fileSystem`), and an action carried out in it comes to what it
comes to on the disk (`Action.performOn_eq`). -/

namespace Accumulator

/-- What actions can be carried out in. -/
structure FileSystem where
  /-- The files at one time, with all that the access to them depends on. -/
  State : Type
  /-- What tells one file from another, whatever paths lead to it. -/
  File : Type
  /-- The content of a file, if it exists. -/
  content? : State → File → Option Bytes
  /-- The file that a path leads to, if any. -/
  locate? : State → String → Option File
  /-- Reads the file at a path. -/
  read : State → String → Except FileError Bytes
  /-- Writes the file at a path, and gives the state afterwards in either case. -/
  write : State → String → Bytes → Except FileError Unit × State
  /-- What is read is the content of the file that the path leads to. -/
  content?_of_read {s : State} {path : String} {content : Bytes} :
    read s path = .ok content →
      ∃ file, locate? s path = some file ∧ content? s file = some content
  /-- What is written is the content of the file that the path leads to, and no other file is
      touched. -/
  content?_of_write {s : State} {path : String} {content : Bytes} :
    (write s path content).1 = .ok () →
      ∃ file, locate? (write s path content).2 path = some file ∧
        content? (write s path content).2 file = some content ∧
        ∀ other, other ≠ file → content? (write s path content).2 other = content? s other
  /-- A write that fails touches no file. -/
  content?_of_write_error {s : State} {path : String} {content : Bytes} {e : FileError} :
    (write s path content).1 = .error e →
      ∀ file, content? (write s path content).2 file = content? s file
  /-- A write leaves files where they are. -/
  locate?_write {s : State} {path : String} {file : File} (other : String) (content : Bytes) :
    locate? s path = some file → locate? (write s other content).2 path = some file

/-- What an action carried out in a file system comes to: its result, the state afterwards, and all
    that was told. -/
structure FileSystem.Aftermath (fs : FileSystem) (α : Type) where
  result : α
  state : fs.State
  told : String

/-! ## Carrying actions out -/

namespace Action

variable {α β : Type} (fs : FileSystem)

/-- Carries an action out in a file system. -/
def performIn (s : fs.State) : Action α → fs.Aftermath α
  | .done result => ⟨result, s, ""⟩
  | .read path next => (next (fs.read s path)).performIn s
  | .write path content next =>
    (next (fs.write s path content).1).performIn (fs.write s path content).2
  | .tell text next =>
    let later := next.performIn s
    ⟨later.result, later.state, text ++ later.told⟩

@[simp]
theorem performIn_map (f : α → β) (a : Action α) (s : fs.State) :
    (a.map f).performIn fs s =
      ⟨f (a.performIn fs s).result, (a.performIn fs s).state, (a.performIn fs s).told⟩ := by
  induction a generalizing s with
  | done result => rfl
  | read path next ih => exact ih _ s
  | write path content next ih => exact ih _ _
  | tell text next ih => rw [map, performIn, performIn, ih]

/-- A note has no influence on the result. -/
@[simp]
theorem result_performIn_note (trace : Bool) (text : String) (next : Action α) (s : fs.State) :
    ((note trace text next).performIn fs s).result = (next.performIn fs s).result := by
  cases trace <;> rfl

/-- A note has no influence on the files. -/
@[simp]
theorem state_performIn_note (trace : Bool) (text : String) (next : Action α) (s : fs.State) :
    ((note trace text next).performIn fs s).state = (next.performIn fs s).state := by
  cases trace <;> rfl

end Action

/-! ## A disk is a file system -/

namespace Disk

/-- The content of the file at a location, if a file is there. -/
def content? (d : Disk) (location : Location) : Option Bytes :=
  match d.node? location with
  | some (.file content) => some content
  | _ => none

/-- The location that a path leads to. There may be nothing. -/
def locate? (d : Disk) (text : String) : Option Location :=
  (Path.parse? text).bind fun path => (d.follow [] path.names).toOption

theorem follow_append (d : Disk) (here : Location) (front back : List String) :
    d.follow here (front ++ back) =
      match d.follow here front with
      | .error e => .error e
      | .ok middle => d.follow middle back := by
  induction front generalizing here with
  | nil => rfl
  | cons name front ih =>
    rw [List.cons_append, follow, follow]
    split
    · rfl
    · rfl
    · exact ih _

/-- A file that is put where no directory was is on the way to nothing. -/
theorem follow_put {d : Disk} {place location here : Location} {names : List String}
    (hroot : place ≠ []) (hplace : d.node? place ≠ some .directory) (content : Bytes)
    (h : d.follow here names = .ok location) :
    (d.put place (.file content)).follow here names = .ok location := by
  induction names generalizing here with
  | nil => exact h
  | cons name names ih =>
    rw [follow] at h
    split at h
    · simp at h
    · simp at h
    · next hhere =>
      have hne : here ≠ place := by
        rintro rfl
        exact hplace hhere
      rw [follow, node?_put hroot, if_neg hne, hhere]
      exact ih h

/-- Writing leads to a free name or a file in a directory. -/
theorem exists_of_target {d : Disk} {text : String} {location : Location}
    (h : d.target text = .ok location) :
    ∃ path name parent, Path.parse? text = some path ∧ path.names.getLast? = some name ∧
      d.follow [] path.names.dropLast = .ok parent ∧ d.node? parent = some .directory ∧
      isDirectoryName path name = false ∧ location = parent ++ [name] ∧
      d.node? location ≠ some .directory := by
  unfold target at h
  split at h
  · simp at h
  · next path hpath =>
    split at h
    · simp at h
    · next name hname =>
      split at h
      · simp at h
      · next parent hparent =>
        split at h
        · simp at h
        · simp at h
        · next hdirectory =>
          split at h
          · simp at h
          · next hordinary =>
            split at h
            · simp at h
            · next hfree =>
              obtain rfl := Except.ok.inj h
              exact ⟨path, name, parent, hpath, hname, hparent, hdirectory,
                Bool.eq_false_iff.2 hordinary, rfl, hfree⟩

/-- A path leads to the location of the file that writing to it would replace or make. -/
theorem locate?_of_target {d : Disk} {text : String} {location : Location}
    (h : d.target text = .ok location) : d.locate? text = some location := by
  obtain ⟨path, name, parent, hpath, hname, hparent, hdirectory, hordinary, rfl, -⟩ :=
    exists_of_target h
  obtain ⟨front, hnames⟩ := List.getLast?_eq_some_iff.1 hname
  have henter : enter parent name = parent ++ [name] := by
    simp only [isDirectoryName, Bool.or_eq_false_iff, beq_eq_false_iff_ne] at hordinary
    rw [enter, if_neg hordinary.1.2, if_neg hordinary.2]
  have hfollow : d.follow [] path.names = .ok (parent ++ [name]) := by
    rw [hnames, List.dropLast_concat] at hparent
    rw [hnames, follow_append, hparent]
    simp only [follow, hdirectory, henter]
  rw [locate?, hpath, Option.bind_some, hfollow]
  rfl

theorem node?_ne_directory_of_target {d : Disk} {text : String} {location : Location}
    (h : d.target text = .ok location) : d.node? location ≠ some .directory := by
  obtain ⟨_, _, _, -, -, -, -, -, -, hfree⟩ := exists_of_target h
  exact hfree

/-- What is read from a disk is the content of a file at the location that the path leads to. -/
theorem content?_of_read {d : Disk} {text : String} {content : Bytes}
    (h : d.read text = .ok content) :
    ∃ location, d.locate? text = some location ∧ d.content? location = some content := by
  unfold read at h
  split at h
  · simp at h
  · next path hpath =>
    split at h
    · simp at h
    · next location hlocation =>
      split at h
      · simp at h
      · simp at h
      · next found hfound =>
        split at h
        · simp at h
        · obtain rfl := Except.ok.inj h
          refine ⟨location, ?_, by rw [content?, hfound]⟩
          rw [locate?, hpath, Option.bind_some, hlocation]
          rfl

/-! A written file is at the target, and every path that led somewhere still leads there. -/

theorem exists_target_of_write {d after : Disk} {text : String} {content : Bytes}
    (h : d.write text content = .ok after) :
    ∃ location, d.target text = .ok location ∧ after = d.put location (.file content) := by
  unfold write at h
  cases htarget : d.target text with
  | error e => simp [htarget, Except.map] at h
  | ok location =>
    simp only [htarget, Except.map, Except.ok.injEq] at h
    exact ⟨location, rfl, h.symm⟩

theorem locate?_of_write {d after : Disk} {text other : String} {content : Bytes}
    {location : Location} (h : d.write text content = .ok after)
    (hlocate : d.locate? other = some location) : after.locate? other = some location := by
  obtain ⟨place, htarget, rfl⟩ := exists_target_of_write h
  rw [locate?, Option.bind_eq_some_iff] at hlocate ⊢
  obtain ⟨path, hpath, hfollow⟩ := hlocate
  refine ⟨path, hpath, ?_⟩
  cases hnames : d.follow [] path.names with
  | error e => simp [hnames, Except.toOption] at hfollow
  | ok found =>
    rw [follow_put (target_ne_root htarget) (node?_ne_directory_of_target htarget) content hnames,
      ← hnames, hfollow]

/-- What is written to a disk is the content of the file at the location that the path leads to. -/
theorem content?_of_write {d after : Disk} {text : String} {content : Bytes}
    (h : d.write text content = .ok after) :
    ∃ location, after.locate? text = some location ∧ after.content? location = some content ∧
      ∀ other, other ≠ location → after.content? other = d.content? other := by
  obtain ⟨location, htarget, hnode⟩ := node?_write h
  refine ⟨location, locate?_of_write h (locate?_of_target htarget), ?_, fun other hother => ?_⟩
  · rw [content?, hnode, if_pos rfl]
  · rw [content?, content?, hnode, if_neg hother]

/-- Writes a file, and gives the disk afterwards in either case. -/
def attempt (d : Disk) (text : String) (content : Bytes) : Except FileError Unit × Disk :=
  match d.write text content with
  | .error e => (.error e, d)
  | .ok after => (.ok (), after)

/-- A disk as a file system. Its files are told apart by their locations. -/
def fileSystem : FileSystem where
  State := Disk
  File := Location
  content? := content?
  locate? := locate?
  read := read
  write := attempt
  content?_of_read := content?_of_read
  content?_of_write := by
    intro d text content h
    unfold attempt at h ⊢
    cases hwrite : d.write text content with
    | error e => simp [hwrite] at h
    | ok after => exact content?_of_write hwrite
  content?_of_write_error := by
    intro d text content e h location
    unfold attempt at h ⊢
    cases hwrite : d.write text content with
    | error e => rfl
    | ok after => simp [hwrite] at h
  locate?_write := by
    intro d text location other content h
    unfold attempt
    cases hwrite : d.write other content with
    | error e => exact h
    | ok after => exact locate?_of_write hwrite h

end Disk

theorem Action.performOn_write {α : Type} (d : Disk) (path : String) (content : Bytes)
    (next : Except FileError Unit → Action α) :
    (Action.write path content next).performOn d =
      (next (d.attempt path content).1).performOn (d.attempt path content).2 := by
  rw [performOn, Disk.attempt]
  cases d.write path content <;> rfl

/-- Carrying an action out on a disk and in its file system is the same. -/
theorem Action.performOn_eq {α : Type} (a : Action α) (d : Disk) :
    a.performOn d =
      ⟨(a.performIn Disk.fileSystem d).result, (a.performIn Disk.fileSystem d).state,
        (a.performIn Disk.fileSystem d).told⟩ := by
  induction a generalizing d with
  | done result => rfl
  | read path next ih => exact ih _ d
  | write path content next ih =>
    rw [performOn_write]
    exact ih _ _
  | tell text next ih =>
    rw [performOn, ih]
    rfl

end Accumulator
