import LockDiscipline.Files.FileSystem
import LockDiscipline.Proofs.Files.Steps

/-! Routes of paths: the steps that they lead over from the root. Most of what a file system says of
a path it says of its route; the paths in the directories above one are those that its route begins
with, however it is spelled. -/

namespace LockDiscipline

namespace FilePath

/-- The names that a path leads over from the root, if it is seen from the directory `cwd`. -/
def route (cwd p : FilePath) : List String := (if p.isAbsolute then [] else cwd.steps) ++ p.steps

/-- The path ends in a name that leads nowhere, so what it leads to is a directory or nothing. -/
def endsIdle (p : FilePath) : Bool := (Text.pieces '/' p.text).getLast?.any isIdle

/-- Two spellings for the same file, seen from the directory `cwd`. -/
structure Alike (cwd p q : FilePath) : Prop where
  route : cwd.route p = cwd.route q
  left : p.endsIdle = false
  right : q.endsIdle = false

/-- The directories above `cwd`, the nearest first. -/
def directoriesOver (cwd : FilePath) : List FilePath := cwd.parent?.elim [] (·.ancestors)

/-- The path `p'` leads from the root over the steps of `cwd`, and then over those of the relative
path `p`. -/
structure WrittenOut (cwd p p' : FilePath) : Prop where
  relative : p.isAbsolute = false
  absolute : p'.isAbsolute
  steps : p'.steps = cwd.steps ++ p.steps

variable {cwd p p' q directory directory' : FilePath}

theorem Alike.symm (h : cwd.Alike p q) : cwd.Alike q p := ⟨h.route.symm, h.right, h.left⟩

theorem text_ne_empty_of_isAbsolute (h : p.isAbsolute) : p.text ≠ "" := by
  intro hempty
  rw [isAbsolute, hempty] at h
  cases h

theorem endsIdle_of_steps_nil (h : p.steps = []) : p.endsIdle := by
  have hidle : ∀ name ∈ Text.pieces '/' p.text, isIdle name := by
    simpa [steps, List.filter_eq_nil_iff] using h
  obtain ⟨names, name, hnames⟩ :=
    (List.eq_nil_or_concat' _).resolve_left (Text.pieces_ne_nil '/' p.text)
  rw [hnames] at hidle
  simp [endsIdle, hnames, hidle name (by simp)]

theorem endsIdle_join (h : q.isAbsolute = false) : (p.join q).endsIdle = q.endsIdle := by
  obtain ⟨names, hpieces, -⟩ := exists_pieces_join (p := p) h
  rw [endsIdle, hpieces, List.getLast?_append_of_ne_nil _ (Text.pieces_ne_nil '/' q.text)]
  rfl

theorem route_join (h : q.isAbsolute = false) :
    cwd.route (directory.join q) = cwd.route directory ++ q.steps := by
  rw [route, route, isAbsolute_join h, steps_join h, List.append_assoc]

/-- Directories with one route have the same files. -/
theorem Alike.join (hroute : cwd.route directory = cwd.route directory')
    (habsolute : q.isAbsolute = false) (hends : q.endsIdle = false) :
    cwd.Alike (directory.join q) (directory'.join q) where
  route := by rw [route_join habsolute, route_join habsolute, hroute]
  left := by rw [endsIdle_join habsolute, hends]
  right := by rw [endsIdle_join habsolute, hends]

/-- The directory that a path with a last step is in. -/
theorem exists_directory (cwd : FilePath) (h : p.endsIdle = false) :
    ∃ directory step, p.parent? = some directory ∧
      cwd.route p = cwd.route directory ++ [step] := by
  have hsteps : p.steps ≠ [] := fun hnil => by simp [endsIdle_of_steps_nil hnil] at h
  obtain ⟨directory, step, hparent, hstep, habsolute, -⟩ := exists_parent? hsteps
  exact ⟨directory, step, hparent, by rw [route, route, habsolute, hstep, List.append_assoc]⟩

/-- What is written beside a file does not depend on the spelling of its path. -/
theorem Alike.sibling (h : cwd.Alike p p') (hends : (p.sibling q).endsIdle = false) :
    cwd.Alike (p.sibling q) (p'.sibling q) := by
  obtain ⟨directory, step, hparent, hroute⟩ := exists_directory cwd h.left
  obtain ⟨directory', step', hparent', hroute'⟩ := exists_directory cwd h.right
  obtain ⟨hdirectory, -⟩ := List.append_inj' (hroute.symm.trans (h.route.trans hroute')) rfl
  rw [FilePath.sibling, hparent] at hends ⊢
  rw [FilePath.sibling, hparent']
  cases habsolute : q.isAbsolute with
  | true =>
    simp only [FilePath.join, habsolute, if_true] at hends ⊢
    exact ⟨rfl, hends, hends⟩
  | false =>
    rw [endsIdle_join habsolute] at hends
    exact .join hdirectory habsolute hends

theorem map_route_ancestors (h : p.isAbsolute) :
    p.ancestors.map cwd.route = p.steps.inits.reverse := by
  obtain ⟨up, hup, hmap, hall⟩ := p.exists_ancestors
  rw [hup, isDotted_of_isAbsolute h, if_neg (by simp), List.append_nil, ← hmap]
  refine List.map_congr_left fun q hq => ?_
  rw [route, hall q hq, h]
  rfl

theorem map_route_directoriesOver (h : cwd.isAbsolute) :
    cwd.directoriesOver.map cwd.route = cwd.steps.inits.dropLast.reverse := by
  rcases eq_or_ne cwd.steps [] with hnil | hne
  · rw [directoriesOver, parent?_of_steps_nil hnil, isDotted_of_isAbsolute h, hnil]
    rfl
  · obtain ⟨directory, step, hparent, hsteps, habsolute, -⟩ := exists_parent? hne
    rw [directoriesOver, hparent, Option.elim_some, map_route_ancestors (habsolute.trans h), hsteps,
      List.inits_append]
    simp

theorem writtenOut_join (hcwd : cwd.isAbsolute) (hp : p.isAbsolute = false) :
    cwd.WrittenOut p (cwd.join p) where
  relative := hp
  absolute := (isAbsolute_join hp).trans hcwd
  steps := steps_join hp

theorem WrittenOut.route_eq (h : cwd.WrittenOut p p') : cwd.route p' = cwd.route p := by
  rw [route, route, h.relative, h.absolute, h.steps]
  rfl

theorem WrittenOut.exists_parent? (h : cwd.WrittenOut p p') (hne : p.steps ≠ []) :
    ∃ directory directory', p.parent? = some directory ∧ p'.parent? = some directory' ∧
      cwd.WrittenOut directory directory' ∧ directory.isDotted = p.isDotted := by
  have hne' : p'.steps ≠ [] := by simp [h.steps, hne]
  obtain ⟨directory, step, hparent, hstep, habsolute, hdotted⟩ := FilePath.exists_parent? hne
  obtain ⟨directory', step', hparent', hstep', habsolute', -⟩ := FilePath.exists_parent? hne'
  have hsteps := h.steps
  rw [hstep, hstep', ← List.append_assoc] at hsteps
  obtain ⟨hinit, -⟩ := List.append_inj' hsteps rfl
  exact ⟨directory, directory', hparent, hparent',
    ⟨habsolute.trans h.relative, habsolute'.trans h.absolute, hinit⟩, hdotted⟩

private theorem inits_append_eq (l r : List String) :
    (l ++ r).inits = l.inits.dropLast ++ r.inits.map (l ++ ·) := by
  induction l with
  | nil => simp
  | cons name l ih =>
    have hne : l.inits.map (name :: ·) ≠ [] := by simp [← List.length_pos_iff, List.length_inits]
    rw [List.cons_append, List.inits_cons, List.inits_cons, ih, List.dropLast_cons_of_ne_nil hne]
    simp

/-- The directories above one that is written from `cwd`, and above the same one written out from
the root. The latter go on above `cwd`. -/
theorem WrittenOut.exists_directories (hcwd : cwd.isAbsolute) (h : cwd.WrittenOut p p') :
    ∃ up up' beyond, p.ancestors = up ++ (if p.isDotted then [⟨""⟩] else []) ∧
      p'.ancestors = up' ++ beyond ∧ up'.map cwd.route = up.map cwd.route ∧
      beyond.map cwd.route = cwd.directoriesOver.map cwd.route ∧
      ∃ above ∈ up, cwd.route above = cwd.steps := by
  obtain ⟨up, hup, hmap, hall⟩ := p.exists_ancestors
  have hroute : up.map cwd.route = (p.steps.inits.map (cwd.steps ++ ·)).reverse := by
    rw [← List.map_reverse, ← hmap, List.map_map]
    refine List.map_congr_left fun q hq => ?_
    rw [route, hall q hq, h.relative]
    rfl
  have hroute' : p'.ancestors.map cwd.route =
      up.map cwd.route ++ cwd.directoriesOver.map cwd.route := by
    rw [map_route_ancestors h.absolute, h.steps, hroute, map_route_directoriesOver hcwd,
      ← List.reverse_append, inits_append_eq]
  obtain ⟨up', beyond, hancestors, hup', hover⟩ := List.map_eq_append_iff.1 hroute'
  refine ⟨up, up', beyond, hup, hancestors, hup', hover, ?_⟩
  have hmem : cwd.steps ∈ up.map cwd.route := by
    rw [hroute, List.mem_reverse, List.mem_map]
    exact ⟨[], by simp, List.append_nil _⟩
  exact List.mem_map.1 hmem

end FilePath

/-- Paths are resolved name by name, the relative ones from the directory at `cwd`, and none is too
long: empty names and dots lead nowhere, links and pairs of dots wherever they do. Spellings of one
route are answered alike, and the spellings of a file have one canonical path. -/
structure FileSystem.ResolvesFrom (fs : FileSystem) (cwd : FilePath) : Prop where
  absolute : cwd.isAbsolute
  directory : fs.isDirectory cwd
  /-- The empty path leads nowhere. -/
  empty : fs.isDirectory ⟨""⟩ = false
  /-- Names that lead nowhere come after no file. -/
  read_endsIdle {p} : p.endsIdle → (fs.read p).toOption = none
  isDirectory_eq {p q} : p.text ≠ "" → q.text ≠ "" → cwd.route p = cwd.route q →
    fs.isDirectory p = fs.isDirectory q
  exists_eq {p q} : cwd.Alike p q → fs.exists? p = fs.exists? q
  isFile_eq {p q} : cwd.Alike p q → fs.isFile p = fs.isFile q
  read_eq {p q} : cwd.Alike p q → (fs.read p).toOption = (fs.read q).toOption
  canonical {p q text} : cwd.Alike p q → fs.read p = .ok text →
    ∃ path, fs.canonical? p = some path ∧ fs.canonical? q = some path

end LockDiscipline
