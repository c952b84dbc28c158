import LockDiscipline.Files.Path

/-!
File systems as they are seen from outside, by the answers that they give on paths. What the answers
have to do with each other is not laid down here, so links are as good as files; only the files that
can be read are finitely many.
-/

namespace LockDiscipline

/-- A place in a file system: the components of a path that leads there. -/
abbrev FilePlace := List String

/-- A file system, in which nothing changes while it is asked. -/
structure FileSystem where
  /-- The path from the root to what a path leads to, with all links followed, if there is
  one. -/
  canonical? : FilePath → Option FilePath
  /-- The text of the file that a path leads to, or the reason why there is none. -/
  read : FilePath → Except String String
  exists? : FilePath → Bool
  isFile : FilePath → Bool
  isDirectory : FilePath → Bool
  /-- The path of the working directory, or the reason why there is none. -/
  workingPath : Except String FilePath
  /-- The places of the files that can be read. -/
  files : List FilePlace
  mem_files : ∀ {p : FilePath} {text : String}, read p = .ok text →
    ((canonical? p).getD p).components ∈ files

namespace FileSystem

/-- The place that stands for a path: that of its canonical path, or its own if there is none.
Spellings with one canonical path have one place. -/
def place (fs : FileSystem) (p : FilePath) : FilePlace := ((fs.canonical? p).getD p).components

theorem place_mem_files {fs : FileSystem} {p : FilePath} {text : String}
    (h : fs.read p = .ok text) : fs.place p ∈ fs.files :=
  fs.mem_files h

/-- How many places of files are not among the visited ones. -/
def unvisited (fs : FileSystem) (visited : List FilePlace) : Nat :=
  (fs.files.filter fun place => !visited.contains place).length

/-- Reading a file at a new place leaves fewer of them. -/
theorem unvisited_cons_lt {fs : FileSystem} {visited : List FilePlace} {p : FilePath}
    {text : String} (h : fs.read p = .ok text) (hv : fs.place p ∉ visited) :
    fs.unvisited (fs.place p :: visited) < fs.unvisited visited := by
  have heq : (fs.files.filter fun place => !(fs.place p :: visited).contains place) =
      (fs.files.filter fun place => !visited.contains place).filter (· ≠ fs.place p) := by
    rw [List.filter_filter]
    congr 1
    funext place
    by_cases hplace : place = fs.place p <;> simp [hplace]
  rw [unvisited, unvisited, heq]
  refine Nat.lt_of_le_of_ne (List.length_filter_le _ _) fun hlength => ?_
  have hkept := List.length_filter_eq_length_iff.1 hlength (fs.place p)
    (List.mem_filter.2 ⟨place_mem_files h, by simpa using hv⟩)
  simp at hkept

end FileSystem

end LockDiscipline
