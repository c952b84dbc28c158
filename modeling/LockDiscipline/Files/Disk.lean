import LockDiscipline.Files.FileSystem

/-!
Disks without links, as one kind of file system: files and directories, and what paths lead to among
them.
-/

namespace LockDiscipline

/-- Where something is on a disk: the names that lead there from the root. -/
abbrev Location := List String

/-- What may be on a disk. -/
inductive DiskEntry where
  | directory
  | file (bytes : List UInt8)
  deriving DecidableEq, Repr

/-- Files and directories, and the directory that relative paths start from. A directory that
something is in need not be listed. -/
structure Disk where
  entries : List (Location × DiskEntry)
  workingDirectory : Location
  /-- The size in bytes from which on a path is not followed, if there is one. -/
  pathSizeLimit : Option Nat := none
  deriving DecidableEq, Repr

/-- Why a file cannot be read. -/
inductive FileError where
  | notFound
  | notDirectory
  | isDirectory
  | nameTooLong
  | badName
  | notText
  deriving DecidableEq, Repr

namespace FileError

/-- The error in words. -/
def message : FileError → String
  | .notFound => "No such file or directory (os error 2)"
  | .notDirectory => "Not a directory (os error 20)"
  | .isDirectory => "Is a directory (os error 21)"
  | .nameTooLong => "File name too long (os error 36)"
  | .badName => "file name contained an unexpected NUL byte"
  | .notText => "stream did not contain valid UTF-8"

end FileError

namespace Disk

/-- What is listed at a place as a file. -/
def bytes? (d : Disk) (l : Location) : Option (List UInt8) :=
  d.entries.findSome? fun entry =>
    match entry.2 with
    | .file bytes => if entry.1 = l then some bytes else none
    | .directory => none

/-- Whether a directory is at a place: it is listed, or something is in it. -/
def isDirectoryAt (d : Disk) (l : Location) : Bool :=
  l.isEmpty || d.entries.any fun entry =>
    l.isPrefixOf entry.1 && (entry.2 = .directory || entry.1 ≠ l)

/-- The greatest size of a name, in bytes. -/
def maxNameSize : Nat := 255

/-- Follows names from a place. Every name but the last has to lead to a directory, and an empty
name or a dot at the end stands for the directory itself. -/
def follow (d : Disk) (l : Location) : List String → Except FileError Location
  | [] => .ok l
  | name :: rest =>
    if !d.isDirectoryAt l then .error .notDirectory
    else if name = "" ∨ name = "." then d.follow l rest
    else if name = ".." then d.follow l.dropLast rest
    else if maxNameSize < name.utf8ByteSize then .error .nameTooLong
    else
      let next := l ++ [name]
      if d.isDirectoryAt next ∨ (d.bytes? next).isSome then d.follow next rest
      else .error .notFound

/-- The place that a path leads to. -/
def locate (d : Disk) (p : FilePath) : Except FileError Location :=
  if p.text.toList.contains '\x00' then .error .badName
  else if p.text = "" then .error .notFound
  else if d.pathSizeLimit.any (· ≤ p.text.utf8ByteSize) then .error .nameTooLong
  else d.follow (if p.isAbsolute then [] else d.workingDirectory) (Text.pieces '/' p.text)

/-- Whether a path leads anywhere. -/
def exists? (d : Disk) (p : FilePath) : Bool := (d.locate p).toOption.isSome

/-- Whether a path leads to a directory. -/
def isDirectory (d : Disk) (p : FilePath) : Bool := (d.locate p).toOption.any d.isDirectoryAt

/-- Whether a path leads to a file. -/
def isFile (d : Disk) (p : FilePath) : Bool :=
  (d.locate p).toOption.any fun l => (d.bytes? l).isSome

/-- The text of the file that a path leads to. -/
def read (d : Disk) (p : FilePath) : Except FileError String :=
  match d.locate p with
  | .error e => .error e
  | .ok l =>
    match d.bytes? l with
    | none => .error .isDirectory
    | some bytes =>
      match String.fromUTF8? ⟨bytes.toArray⟩ with
      | none => .error .notText
      | some text => .ok text

/-- The path from the root to a place. -/
def pathTo (l : Location) : FilePath := ⟨"/" ++ Text.join "/" l⟩

/-- The path of the working directory. -/
def workingPath (d : Disk) : FilePath := pathTo d.workingDirectory

theorem mem_entries_of_bytes? {d : Disk} {l : Location} {bytes : List UInt8}
    (h : d.bytes? l = some bytes) : (l, DiskEntry.file bytes) ∈ d.entries := by
  obtain ⟨⟨l', entry⟩, hmem, h⟩ := List.exists_of_findSome?_eq_some h
  cases entry with
  | directory => cases h
  | file bytes' =>
    obtain ⟨rfl, hbytes⟩ := Option.ite_none_right_eq_some.1 h
    exact Option.some.inj hbytes ▸ hmem

/-- What is read is listed. -/
theorem exists_of_read {d : Disk} {p : FilePath} {text : String} (h : d.read p = .ok text) :
    ∃ entry ∈ d.entries, d.locate p = .ok entry.1 ∧ (d.bytes? entry.1).isSome := by
  unfold read at h
  split at h
  · cases h
  · next l hl =>
    split at h
    · cases h
    · next bytes hbytes =>
      exact ⟨_, mem_entries_of_bytes? hbytes, hl, Option.isSome_of_eq_some hbytes⟩

/-- The disk as a file system. -/
def fileSystem (d : Disk) : FileSystem where
  canonical? p := (d.locate p).toOption.map pathTo
  read p := (d.read p).mapError FileError.message
  exists? := d.exists?
  isFile := d.isFile
  isDirectory := d.isDirectory
  workingPath := .ok d.workingPath
  files := d.entries.map fun entry => (pathTo entry.1).components
  mem_files := by
    intro p text h
    cases hread : d.read p with
    | error e =>
      rw [hread] at h
      cases h
    | ok =>
      obtain ⟨entry, hmem, hl, -⟩ := exists_of_read hread
      rw [hl]
      exact List.mem_map_of_mem hmem

end Disk

end LockDiscipline
