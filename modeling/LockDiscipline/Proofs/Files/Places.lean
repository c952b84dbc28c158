import LockDiscipline.Files.Disk
import LockDiscipline.Proofs.Except
import LockDiscipline.Proofs.Files.Routes

/-! Where paths lead on a disk: to where the names of their routes lead from the root. So paths are
resolved from the working directory. -/

namespace LockDiscipline

/-- A name that a file or a directory may have. -/
def PlainName (name : String) : Prop :=
  FilePath.isIdle name = false ∧ name ≠ ".." ∧ name.utf8ByteSize ≤ Disk.maxNameSize ∧
    '/' ∉ name.toList ∧ '\x00' ∉ name.toList

instance (name : String) : Decidable (PlainName name) :=
  inferInstanceAs (Decidable (_ ∧ _))

namespace Disk

open FilePath (isIdle)

/-- What is listed has names that it may have, no place is both a file and a directory, the working
directory is a directory, and paths are followed whatever their size. -/
structure Sound (d : Disk) : Prop where
  plain : ∀ entry ∈ d.entries, ∀ name ∈ entry.1, PlainName name
  apart : ∀ entry ∈ d.entries, (d.bytes? entry.1).isSome → d.isDirectoryAt entry.1 = false
  working : d.isDirectoryAt d.workingDirectory = true
  unlimited : d.pathSizeLimit = none

variable {d : Disk} {p q : FilePath} {l l' : Location} {name : String} {names rest : List String}

theorem isDirectoryAt_above (h : d.isDirectoryAt l') (habove : l <+: l') :
    d.isDirectoryAt l := by
  rcases eq_or_ne l l' with rfl | hne
  · exact h
  · have hstrict {l'' : Location} (hl'' : l' <+: l'') : l'' ≠ l := by
      rintro rfl
      exact hne (habove.eq_of_length_le hl''.length_le)
    simp only [isDirectoryAt, Bool.or_eq_true, List.isEmpty_iff, List.any_eq_true,
      Bool.and_eq_true, List.isPrefixOf_iff_prefix, decide_eq_true_eq] at h ⊢
    rcases h with rfl | ⟨entry, hmem, hentry, -⟩
    · exact .inl (List.prefix_nil.1 habove)
    · exact .inr ⟨entry, hmem, habove.trans hentry, .inr (hstrict hentry)⟩

theorem Sound.plainName (hd : d.Sound) (h : d.isDirectoryAt l) (hname : name ∈ l) :
    PlainName name := by
  simp only [isDirectoryAt, Bool.or_eq_true, List.isEmpty_iff, List.any_eq_true,
    Bool.and_eq_true, List.isPrefixOf_iff_prefix] at h
  rcases h with rfl | ⟨entry, hmem, hentry, -⟩
  · cases hname
  · exact hd.plain entry hmem name (hentry.subset hname)

theorem Sound.not_isDirectoryAt (hd : d.Sound) (h : (d.bytes? l).isSome) :
    d.isDirectoryAt l = false := by
  obtain ⟨bytes, hbytes⟩ := Option.isSome_iff_exists.1 h
  exact hd.apart _ (mem_entries_of_bytes? hbytes) h

theorem follow_of_not_isDirectoryAt (h : d.isDirectoryAt l = false) (hne : names ≠ []) :
    d.follow l names = .error .notDirectory := by
  match names, hne with
  | name :: rest, _ => simp [follow, h]

/-- Names are followed one after another. -/
theorem follow_cons : d.follow l (name :: rest) = d.follow l [name] >>= (d.follow · rest) := by
  rw [follow, follow]
  dsimp only
  repeat' split
  all_goals rfl

theorem follow_append : d.follow l (names ++ rest) = d.follow l names >>= (d.follow · rest) := by
  induction names generalizing l with
  | nil => rfl
  | cons name names ih =>
    rw [List.cons_append, follow_cons, @follow_cons d l name names, bind_assoc]
    exact congrArg _ (funext fun _ => ih)

theorem follow_of_isIdle (h : d.isDirectoryAt l) (hidle : isIdle name) :
    d.follow l (name :: rest) = d.follow l rest := by
  have hname : name = "" ∨ name = "." := by simpa [isIdle] using hidle
  simp [follow, h, hname]

/-- Names that lead nowhere may be left out, if others come after them. -/
theorem follow_filter (hne : rest ≠ []) :
    d.follow l (names ++ rest) = d.follow l (names.filter (!isIdle ·) ++ rest) := by
  induction names generalizing l with
  | nil => rfl
  | cons name names ih =>
    cases hidle : isIdle name with
    | true =>
      rw [List.filter_cons_of_neg (by simp [hidle]), ← ih, List.cons_append]
      cases hdir : d.isDirectoryAt l with
      | false =>
        rw [follow_of_not_isDirectoryAt hdir (List.cons_ne_nil _ _),
          follow_of_not_isDirectoryAt hdir (by simp [hne])]
      | true => exact follow_of_isIdle hdir hidle
    | false =>
      rw [List.filter_cons_of_pos (by simp [hidle]), List.cons_append, List.cons_append,
        follow_cons, @follow_cons d l name (names.filter _ ++ rest)]
      exact congrArg _ (funext fun _ => ih)

/-- A name that leads nowhere is only followed from a directory. -/
theorem isDirectoryAt_of_follow_concat (h : d.follow l (names ++ [name]) = .ok l')
    (hidle : isIdle name) : d.isDirectoryAt l' := by
  rw [follow_append, bind_eq_ok_iff] at h
  obtain ⟨m, -, hlast⟩ := h
  cases hdir : d.isDirectoryAt m with
  | false =>
    rw [follow_of_not_isDirectoryAt hdir (List.cons_ne_nil _ _)] at hlast
    cases hlast
  | true =>
    rw [follow_of_isIdle hdir hidle] at hlast
    cases hlast
    exact hdir

/-- The names of a directory lead to it. -/
theorem Sound.follow_place (hd : d.Sound) (h : d.isDirectoryAt (l ++ names)) :
    d.follow l (names ++ rest) = d.follow (l ++ names) rest := by
  induction names generalizing l with
  | nil => simp
  | cons name names ih =>
    have hdir : d.isDirectoryAt l := isDirectoryAt_above h (List.prefix_append ..)
    have happend : l ++ name :: names = l ++ [name] ++ names := by simp
    rw [happend] at h ⊢
    have hnext : d.isDirectoryAt (l ++ [name]) :=
      isDirectoryAt_above h (List.prefix_append ..)
    have hmem : name ∈ l ++ [name] := by simp
    obtain ⟨hidle, hup, hsize, -, -⟩ := hd.plainName hnext hmem
    obtain ⟨hempty, hdot⟩ : name ≠ "" ∧ name ≠ "." := by simpa [isIdle] using hidle
    have hname : d.follow l [name] = .ok (l ++ [name]) := by
      simp [follow, hdir, hempty, hdot, hup, hsize.not_gt, hnext]
    rw [List.cons_append, follow_cons, hname]
    exact ih h

/-- At the end of a path, a name that leads nowhere only says that there is a directory. -/
theorem follow_concat_idle (hidle : isIdle name) :
    d.follow l (names ++ [name]) = d.follow l (names ++ [""]) := by
  rw [follow_append, follow_append]
  refine congrArg _ (funext fun m => ?_)
  cases hdir : d.isDirectoryAt m with
  | false =>
    rw [follow_of_not_isDirectoryAt hdir (List.cons_ne_nil _ _),
      follow_of_not_isDirectoryAt hdir (List.cons_ne_nil _ _)]
  | true => rw [follow_of_isIdle hdir hidle, follow_of_isIdle hdir (by decide)]

theorem follow_concat_empty_iff : (∃ l', d.follow l (names ++ [""]) = .ok l' ∧
      d.isDirectoryAt l') ↔ ∃ l', d.follow l names = .ok l' ∧ d.isDirectoryAt l' := by
  simp only [follow_append, bind_eq_ok_iff]
  constructor
  · rintro ⟨l', ⟨m, hm, hlast⟩, -⟩
    cases hdir : d.isDirectoryAt m with
    | false =>
      rw [follow_of_not_isDirectoryAt hdir (List.cons_ne_nil _ _)] at hlast
      cases hlast
    | true => exact ⟨m, hm, hdir⟩
  · rintro ⟨m, hm, hdir⟩
    exact ⟨m, ⟨m, hm, follow_of_isIdle hdir (by decide)⟩, hdir⟩

theorem isAbsolute_workingPath : d.workingPath.isAbsolute := by
  simp [workingPath, pathTo, FilePath.isAbsolute]

theorem Sound.steps_workingPath (hd : d.Sound) : d.workingPath.steps = d.workingDirectory := by
  have hplain {name : String} (hname : name ∈ d.workingDirectory) : PlainName name :=
    hd.plainName hd.working hname
  have htext : d.workingPath.text.toList =
      '/' :: ['/'].intercalate (d.workingDirectory.map String.toList) := by
    rw [workingPath, pathTo, String.toList_append, Text.join, String.toList_intercalate]
    rfl
  have hpieces : Text.pieces '/' d.workingPath.text =
      "" :: (Text.splitOn '/' (['/'].intercalate (d.workingDirectory.map String.toList))).map
        String.ofList := by
    rw [Text.pieces, htext, Text.splitOn, if_pos rfl]
    rfl
  rw [FilePath.steps, hpieces, List.filter_cons_of_neg (by decide)]
  rcases eq_or_ne d.workingDirectory [] with hnil | hne
  · rw [hnil]
    decide +kernel
  · rw [Text.splitOn_intercalate (by simpa using hne), List.map_map]
    · simp only [Function.comp_def, String.ofList_toList, List.map_id']
      exact List.filter_eq_self.2 fun name hname => by simp [(hplain hname).1]
    · intro run hrun
      obtain ⟨name, hname, rfl⟩ := List.mem_map.1 hrun
      exact (hplain hname).2.2.2.1

/-- From where it starts a path leads over its steps to where its route leads from the root. -/
theorem Sound.follow_route (hd : d.Sound) :
    d.follow (if p.isAbsolute then [] else d.workingDirectory) (p.steps ++ rest) =
      d.follow [] (d.workingPath.route p ++ rest) := by
  rw [FilePath.route, hd.steps_workingPath]
  split
  · rfl
  · have hworking : d.isDirectoryAt ([] ++ d.workingDirectory) := hd.working
    rw [List.append_assoc, hd.follow_place hworking]
    rfl

theorem nul_mem_text_iff : '\x00' ∈ p.text.toList ↔ ∃ name ∈ p.steps, '\x00' ∈ name.toList := by
  have hslash : '\x00' ≠ '/' := by decide
  rw [Text.mem_iff_mem_splitOn hslash]
  constructor
  · rintro ⟨run, hrun, hnul⟩
    refine ⟨String.ofList run, List.mem_filter.2 ⟨List.mem_map_of_mem hrun, ?_⟩, by simpa⟩
    have hidle : isIdle (String.ofList run) = false := by
      refine Bool.eq_false_iff.2 fun hidle => ?_
      have hrun : run = [] ∨ run = ['.'] := by simpa [isIdle, ← String.toList_inj] using hidle
      rcases hrun with rfl | rfl <;> simp at hnul
    simp [hidle]
  · rintro ⟨name, hname, hnul⟩
    obtain ⟨run, hrun, rfl⟩ := List.mem_map.1 (List.mem_filter.1 hname).1
    exact ⟨run, hrun, by simpa using hnul⟩

theorem Sound.nul_mem_text_iff (hd : d.Sound) : '\x00' ∈ p.text.toList ↔
    ∃ name ∈ d.workingPath.route p, '\x00' ∈ name.toList := by
  rw [Disk.nul_mem_text_iff, FilePath.route, hd.steps_workingPath]
  split
  · rfl
  · have hplain : ¬ ∃ name ∈ d.workingDirectory, '\x00' ∈ name.toList := by
      rintro ⟨name, hname, hnul⟩
      obtain ⟨-, -, -, -, hno⟩ := hd.plainName hd.working hname
      exact hno hnul
    simp only [List.mem_append, or_and_right, exists_or, hplain, false_or]

/-- A path leads to where its route leads from the root. -/
theorem Sound.locate_eq_ok_iff (hd : d.Sound) : d.locate p = .ok l ↔ p.text ≠ "" ∧
    (¬ ∃ name ∈ d.workingPath.route p, '\x00' ∈ name.toList) ∧
      d.follow [] (d.workingPath.route p ++ if p.endsIdle then [""] else []) = .ok l := by
  have hfollow : d.follow (if p.isAbsolute then [] else d.workingDirectory)
      (Text.pieces '/' p.text) =
        d.follow [] (d.workingPath.route p ++ if p.endsIdle then [""] else []) := by
    obtain ⟨names, name, hnames⟩ :=
      (List.eq_nil_or_concat' _).resolve_left (Text.pieces_ne_nil '/' p.text)
    have hends : p.endsIdle = isIdle name := by simp [FilePath.endsIdle, hnames]
    rw [← hd.follow_route, FilePath.steps, hends, hnames, follow_filter (List.cons_ne_nil _ _),
      List.filter_append]
    cases hidle : isIdle name with
    | true => simp [hidle, follow_concat_idle]
    | false => simp [hidle]
  rw [← hd.nul_mem_text_iff, ← hfollow, locate]
  by_cases hnul : '\x00' ∈ p.text.toList
  · simp [hnul]
  · by_cases hempty : p.text = "" <;> simp [hnul, hempty, hd.unlimited]

theorem Sound.locate_eq_of_alike (hd : d.Sound) (h : d.workingPath.Alike p q) :
    (d.locate p).toOption = (d.locate q).toOption := by
  have hne {p : FilePath} (hp : p.endsIdle = false) : p.text ≠ "" := by
    intro hempty
    rw [FilePath.endsIdle, hempty] at hp
    cases hp
  refine Option.ext fun l => ?_
  rw [toOption_eq_some_iff, toOption_eq_some_iff, hd.locate_eq_ok_iff, hd.locate_eq_ok_iff, h.route,
    h.left, h.right]
  simp only [hne h.left, hne h.right, ne_eq, not_false_eq_true, true_and]

theorem Sound.isDirectory_iff (hd : d.Sound) (hne : p.text ≠ "") : d.isDirectory p ↔
    (¬ ∃ name ∈ d.workingPath.route p, '\x00' ∈ name.toList) ∧
      ∃ l, d.follow [] (d.workingPath.route p) = .ok l ∧ d.isDirectoryAt l := by
  simp only [isDirectory, Option.any_eq_true, toOption_eq_some_iff, hd.locate_eq_ok_iff, hne,
    ne_eq, not_false_eq_true, true_and, and_assoc, exists_and_left]
  split
  · rw [follow_concat_empty_iff]
  · rw [List.append_nil]

theorem Sound.read_eq_of_alike (hd : d.Sound) (h : d.workingPath.Alike p q) :
    (d.read p).toOption = (d.read q).toOption := by
  have hlocate := hd.locate_eq_of_alike h
  unfold read
  cases hp : d.locate p with
  | error e =>
    cases hq : d.locate q with
    | error e' => rfl
    | ok l => simp [hp, hq, Except.toOption] at hlocate
  | ok l =>
    cases hq : d.locate q with
    | error e => simp [hp, hq, Except.toOption] at hlocate
    | ok l' =>
      obtain rfl : l = l' := by simpa [hp, hq, Except.toOption] using hlocate
      rfl

theorem Sound.isDirectory_workingPath (hd : d.Sound) : d.isDirectory d.workingPath := by
  have hroute : d.workingPath.route d.workingPath = d.workingDirectory := by
    rw [FilePath.route, isAbsolute_workingPath, hd.steps_workingPath]
    rfl
  have hne : d.workingPath.text ≠ "" :=
    FilePath.text_ne_empty_of_isAbsolute isAbsolute_workingPath
  rw [hd.isDirectory_iff hne, hroute]
  refine ⟨?_, d.workingDirectory, ?_, hd.working⟩
  · rintro ⟨name, hname, hnul⟩
    exact (hd.plainName hd.working hname).2.2.2.2 hnul
  · have hworking : d.isDirectoryAt ([] ++ d.workingDirectory) := hd.working
    rw [← List.append_nil d.workingDirectory, hd.follow_place hworking]
    simp [follow]

theorem Sound.read_of_endsIdle (hd : d.Sound) (h : p.endsIdle) : (d.read p).toOption = none := by
  refine Option.eq_none_iff_forall_ne_some.2 fun text htext => ?_
  obtain ⟨entry, -, hl, hfile⟩ := exists_of_read (toOption_eq_some_iff.1 htext)
  obtain ⟨-, -, hfollow⟩ := hd.locate_eq_ok_iff.1 hl
  rw [if_pos h] at hfollow
  have hdir := isDirectoryAt_of_follow_concat hfollow (by decide)
  rw [hd.not_isDirectoryAt hfile] at hdir
  cases hdir

theorem toOption_read_fileSystem : (d.fileSystem.read p).toOption = (d.read p).toOption := by
  change ((d.read p).mapError FileError.message).toOption = _
  cases d.read p <;> rfl

/-- On a disk, paths are resolved from the working directory. -/
theorem Sound.resolvesFrom (hd : d.Sound) : d.fileSystem.ResolvesFrom d.workingPath where
  absolute := isAbsolute_workingPath
  directory := hd.isDirectory_workingPath
  empty := by simp [fileSystem, isDirectory, locate, Except.toOption]
  read_endsIdle h := toOption_read_fileSystem.trans (hd.read_of_endsIdle h)
  isDirectory_eq {p q} hp hq hroute := by
    change d.isDirectory p = d.isDirectory q
    rw [Bool.eq_iff_iff, hd.isDirectory_iff hp, hd.isDirectory_iff hq, hroute]
  exists_eq h := congrArg Option.isSome (hd.locate_eq_of_alike h)
  isFile_eq h := congrArg (Option.any _) (hd.locate_eq_of_alike h)
  read_eq h := by rw [toOption_read_fileSystem, toOption_read_fileSystem, hd.read_eq_of_alike h]
  canonical {p q text} h hread := by
    have hp : (d.read p).toOption = some text := by
      rw [← toOption_read_fileSystem, hread]
      rfl
    obtain ⟨entry, -, hl, -⟩ := exists_of_read (toOption_eq_some_iff.1 hp)
    have hq : (d.locate q).toOption = some entry.1 := by
      rw [← hd.locate_eq_of_alike h, hl]
      rfl
    refine ⟨pathTo entry.1, ?_, ?_⟩
    · exact congrArg (Option.map pathTo) (toOption_eq_some_iff.2 hl)
    · exact congrArg (Option.map pathTo) hq

end Disk

end LockDiscipline
