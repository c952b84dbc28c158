import LockDiscipline.Files.Path
import Mathlib.Data.List.DropRight
import Mathlib.Data.List.Infix

/-! The steps of a path: its names, without those that lead nowhere. A parent, which is found in the
text of a path, has all its steps but the last one, so the steps of a path and of the parents above
it are those that the path begins with. -/

namespace LockDiscipline

namespace FilePath

/-- Whether the path starts with a dot for the directory that it starts from. -/
def isDotted (p : FilePath) : Bool := start p.text.toList = ['.']

private def stepsOf (names : List (List Char)) : List String :=
  (names.map String.ofList).filter (!isIdle ·)

variable {p q : FilePath} {names l : List (List Char)} {x cs : List Char}

private theorem stepsOf_append : stepsOf (names ++ l) = stepsOf names ++ stepsOf l := by
  simp [stepsOf]

private theorem isIdle_ofList : isIdle (String.ofList x) = (x = [] || x = ['.']) := by
  simp [isIdle, ← String.toList_inj]

private theorem stepsOf_trimNames : stepsOf (trimNames names) = stepsOf names := by
  have hsplit : trimNames names ++ names.rtakeWhile (fun name => name = [] || name = ['.']) =
      names := List.rdropWhile_append_rtakeWhile ..
  have hrest : stepsOf (names.rtakeWhile fun name => name = [] || name = ['.']) = [] := by
    refine List.filter_eq_nil_iff.2 fun name hname => ?_
    obtain ⟨x, hx, rfl⟩ := List.mem_map.1 hname
    rw [isIdle_ofList, List.mem_rtakeWhile_imp hx]
    simp
  conv_rhs => rw [← hsplit, stepsOf_append, hrest, List.append_nil]

private theorem not_isIdle_last (h : trimNames names = l ++ [x]) :
    isIdle (String.ofList x) = false := by
  have hnames : names.rdropWhile (fun name => name = [] || name = ['.']) = l ++ [x] := h
  have hlast := List.rdropWhile_last_not (fun name => name = [] || name = ['.']) names
    (by simp [hnames])
  simp only [hnames, List.getLast_concat] at hlast
  rw [isIdle_ofList]
  exact Bool.not_eq_true _ ▸ hlast

private theorem stepsOf_concat (h : isIdle (String.ofList x) = false) :
    stepsOf (l ++ [x]) = stepsOf l ++ [String.ofList x] := by
  rw [stepsOf_append]
  simp [stepsOf, h]

private theorem trimNames_eq_nil_iff : trimNames names = [] ↔ stepsOf names = [] := by
  constructor
  · intro h
    rw [← stepsOf_trimNames, h]
    rfl
  · intro h
    rcases List.eq_nil_or_concat (trimNames names) with hnil | ⟨l, x, hlx⟩
    · exact hnil
    · rw [List.concat_eq_append] at hlx
      rw [← stepsOf_trimNames, hlx, stepsOf_concat (not_isIdle_last hlx)] at h
      simp at h

/-- What stands before the names is no step. -/
private theorem stepsOf_drop_start : stepsOf (Text.splitOn '/' (cs.drop (start cs).length)) =
    stepsOf (Text.splitOn '/' cs) := by
  unfold start
  split
  · simp [Text.splitOn, stepsOf, isIdle]
  · simp [Text.splitOn, stepsOf, isIdle]
  · simp [Text.splitOn, stepsOf, isIdle]
  · rfl

private theorem stepsOf_start :
    stepsOf (Text.splitOn '/' (start cs)) = [] ∧ start (start cs) = start cs := by
  have hcases : start cs = [] ∨ start cs = ['/'] ∨ start cs = ['.'] := by
    unfold start
    split <;> simp
  rcases hcases with h | h | h <;> rw [h] <;> simp [Text.splitOn, stepsOf, isIdle, start]

private theorem start_append_slash (h : cs ≠ []) : start (cs ++ '/' :: x) = start cs := by
  match cs, h with
  | [c], _ => by_cases hslash : c = '/' <;> by_cases hdot : c = '.' <;> simp_all [start]
  | c :: c' :: rest, _ => rw [List.cons_append, List.cons_append]; unfold start; split <;> simp_all

private theorem steps_eq_stepsOf : p.steps =
    stepsOf (trimNames (Text.splitOn '/' (p.text.toList.drop (start p.text.toList).length))) := by
  rw [stepsOf_trimNames, stepsOf_drop_start]
  rfl

/-- Where a path has no steps, only the directory that it starts from has a parent. -/
theorem parent?_of_steps_nil (h : p.steps = []) :
    p.parent? = if p.isDotted then some ⟨""⟩ else none := by
  have hnames := steps_eq_stepsOf.symm.trans h
  rw [stepsOf_trimNames, ← trimNames_eq_nil_iff] at hnames
  unfold parent?
  simp only [hnames, List.isEmpty_nil, if_true, isDotted, decide_eq_true_eq]

/-- The names above the last one that leads anywhere. -/
private theorem exists_names_above (h : trimNames names = l ++ [x]) : ∃ rest, rest ≠ [] ∧
    names = trimNames l ++ rest ∧ stepsOf rest = [String.ofList x] := by
  obtain ⟨idle, hidle⟩ : trimNames names <+: names := List.rdropWhile_prefix _ _
  obtain ⟨idle', hidle'⟩ : trimNames l <+: l := List.rdropWhile_prefix _ _
  have hnames : names = trimNames l ++ (idle' ++ [x] ++ idle) := by
    rw [← hidle, h, ← List.append_assoc, ← List.append_assoc, hidle']
  have hsteps : stepsOf (trimNames l) ++ stepsOf (idle' ++ [x] ++ idle) =
      stepsOf (trimNames l) ++ [String.ofList x] := by
    rw [← stepsOf_append, ← hnames, stepsOf_trimNames, ← @stepsOf_trimNames names, h,
      stepsOf_concat (not_isIdle_last h)]
  exact ⟨_, by simp, hnames, List.append_cancel_left hsteps⟩

/-- Names in front of a slash keep their steps, and the path starts as it did. -/
private theorem stepsOf_above {rest : List (List Char)} (hl : trimNames l ≠ [])
    (hrest : rest ≠ []) (hrun : ∀ run ∈ trimNames l ++ rest, '/' ∉ run)
    (hcs : start cs ++ ['/'].intercalate (trimNames l ++ rest) = cs) :
    stepsOf (Text.splitOn '/' cs) = stepsOf (Text.splitOn '/'
        (start cs ++ ['/'].intercalate (trimNames l))) ++ stepsOf rest ∧
      start (start cs ++ ['/'].intercalate (trimNames l)) = start cs := by
  obtain ⟨hrunl, hrunrest⟩ := List.forall_mem_append.1 hrun
  rw [Text.intercalate_append _ hl hrest, ← List.append_assoc] at hcs
  generalize habove : start cs ++ ['/'].intercalate (trimNames l) = above at hcs
  have hne : above ≠ [] := by
    rintro rfl
    obtain ⟨-, hjoin⟩ := List.append_eq_nil_iff.1 habove
    have hsplit := Text.splitOn_intercalate hl hrunl
    rw [hjoin] at hsplit
    have hlast := not_isIdle_last (l := []) hsplit.symm
    simp [isIdle] at hlast
  rw [← hcs, Text.splitOn_append, Text.splitOn_intercalate hrest hrunrest, stepsOf_append]
  exact ⟨rfl, (start_append_slash hne).symm⟩

/-- The parent of a path with steps has all of them but the last one, and starts where the path
does. -/
private theorem exists_parent?_of_start (h : p.steps ≠ []) : ∃ directory step,
    p.parent? = some directory ∧ p.steps = directory.steps ++ [step] ∧
      start directory.text.toList = start p.text.toList := by
  have htext := start_append p.text.toList
  rw [steps_eq_stepsOf] at h
  have hrun {run : List Char} (hrun : run ∈ Text.splitOn '/' (p.text.toList.drop
      (start p.text.toList).length)) : '/' ∉ run := Text.not_mem_of_mem_splitOn hrun
  have hjoin := Text.intercalate_splitOn '/' (p.text.toList.drop (start p.text.toList).length)
  have hsteps := @stepsOf_drop_start p.text.toList
  generalize hnames : Text.splitOn '/' (p.text.toList.drop (start p.text.toList).length) = names
    at h hrun hjoin hsteps
  rcases List.eq_nil_or_concat (trimNames names) with hnil | ⟨l, x, hlx⟩
  · rw [hnil] at h
    exact absurd rfl h
  rw [List.concat_eq_append] at hlx
  obtain ⟨rest, hrest, hsplit, hx⟩ := exists_names_above hlx
  have hparent : p.parent? = some ⟨String.ofList (start p.text.toList ++
      ['/'].intercalate (trimNames l))⟩ := by
    unfold parent?
    simp [hnames, hlx]
  refine ⟨_, String.ofList x, hparent, ?_⟩
  rw [← hx, String.toList_ofList]
  change stepsOf _ = stepsOf (Text.splitOn '/' (String.ofList _).toList) ++ stepsOf rest ∧ _
  rw [String.toList_ofList]
  rcases eq_or_ne (trimNames l) [] with hnil | hne
  · rw [hnil, List.nil_append] at hsplit
    obtain ⟨hnone, hstart⟩ := @stepsOf_start p.text.toList
    rw [hnil, ← hsplit, hsteps, List.intercalate_nil, List.append_nil, hnone, List.nil_append]
    exact ⟨rfl, hstart⟩
  · rw [hsplit] at hjoin hrun
    rw [← hjoin] at htext
    exact stepsOf_above hne hrest (fun run hmem => hrun hmem) htext

theorem isAbsolute_eq : p.isAbsolute = decide (start p.text.toList = ['/']) := by
  have hhead : p.text.toList.head? = some '/' ↔ start p.text.toList = ['/'] := by
    unfold start
    split
    · next hcs => simp [hcs]
    · next hcs => simp [hcs]
    · next hcs => simp [hcs]
    · next hslash _ _ =>
      refine ⟨fun hhead => ?_, by simp⟩
      obtain ⟨tail, htail⟩ := List.head?_eq_some_iff.1 hhead
      exact absurd htail (hslash tail)
  exact decide_eq_decide.2 hhead

theorem isDotted_of_isAbsolute (h : p.isAbsolute) : p.isDotted = false := by
  rw [isAbsolute_eq, decide_eq_true_eq] at h
  rw [isDotted, h]
  rfl

/-- The parent of a path with steps has all of them but the last one. -/
theorem exists_parent? (h : p.steps ≠ []) : ∃ directory step, p.parent? = some directory ∧
    p.steps = directory.steps ++ [step] ∧ directory.isAbsolute = p.isAbsolute ∧
      directory.isDotted = p.isDotted := by
  obtain ⟨directory, step, hparent, hsteps, hstart⟩ := exists_parent?_of_start h
  refine ⟨directory, step, hparent, hsteps, ?_, ?_⟩
  · rw [isAbsolute_eq, isAbsolute_eq, hstart]
  · rw [isDotted, isDotted, hstart]

theorem ancestors_of_parent? (h : p.parent? = some q) : p.ancestors = p :: q.ancestors := by
  rw [ancestors]
  split
  · next hq => rw [Option.some.inj (h.symm.trans hq)]
  · next hq => cases h.symm.trans hq

theorem ancestors_of_parent?_none (h : p.parent? = none) : p.ancestors = [p] := by
  rw [ancestors]
  split
  · next hq => cases h.symm.trans hq
  · rfl

/-- Going up from a path, one loses one step after the other. If the path starts with a dot, one
comes to the directory that it starts from twice: by the dot and by the empty path. -/
theorem exists_ancestors (p : FilePath) : ∃ up,
    p.ancestors = up ++ (if p.isDotted then [⟨""⟩] else []) ∧
      up.map steps = p.steps.inits.reverse ∧ ∀ q ∈ up, q.isAbsolute = p.isAbsolute := by
  generalize hsteps : p.steps = names
  induction names using List.reverseRecOn generalizing p with
  | nil =>
    have hparent := parent?_of_steps_nil hsteps
    refine ⟨[p], ?_, by simp [hsteps], by simp⟩
    split at hparent
    · next hdot =>
      have hempty : (⟨""⟩ : FilePath).parent? = none := by decide +kernel
      rw [ancestors_of_parent? hparent, ancestors_of_parent?_none hempty, if_pos hdot]
      rfl
    · next hdot =>
      rw [ancestors_of_parent?_none hparent, if_neg hdot]
      rfl
  | append_singleton init step ih =>
    obtain ⟨directory, step', hparent, hsteps', habsolute, hdot⟩ :=
      exists_parent? (p := p) (by simp [hsteps])
    obtain ⟨hinit, -⟩ := List.append_inj' (hsteps'.symm.trans hsteps) rfl
    obtain ⟨up, hup, hmap, hsame⟩ := ih directory hinit
    refine ⟨p :: up, ?_, ?_, ?_⟩
    · rw [ancestors_of_parent? hparent, hup, hdot, List.cons_append]
    · simp [hsteps, hmap, List.inits_append]
    · rw [← habsolute]
      exact List.forall_mem_cons.2 ⟨habsolute.symm, hsame⟩

/-- A path seen from a directory leads over the names of both. -/
theorem exists_pieces_join (h : q.isAbsolute = false) : ∃ names,
    Text.pieces '/' (p.join q).text = names ++ Text.pieces '/' q.text ∧
      names.filter (!isIdle ·) = p.steps := by
  rw [join, if_neg (by simp [h])]
  split
  · next hend =>
    rcases hend with hempty | hslash
    · exact ⟨[], by simp [hempty], by simp [steps, hempty, Text.pieces, Text.splitOn, isIdle]⟩
    · obtain ⟨cs, hcs⟩ := List.getLast?_eq_some_iff.1 hslash
      refine ⟨(Text.splitOn '/' cs).map String.ofList, ?_, ?_⟩
      · rw [Text.pieces, String.toList_append, hcs, List.append_assoc, List.singleton_append,
          Text.splitOn_append, List.map_append]
        rfl
      · rw [steps, Text.pieces, hcs, Text.splitOn_append, List.map_append, List.filter_append]
        simp [Text.splitOn, isIdle]
  · refine ⟨Text.pieces '/' p.text, ?_, rfl⟩
    have htext : (p.text ++ "/" ++ q.text).toList = p.text.toList ++ '/' :: q.text.toList := by
      simp
    rw [Text.pieces, htext, Text.splitOn_append, List.map_append]
    rfl

theorem steps_join (h : q.isAbsolute = false) : (p.join q).steps = p.steps ++ q.steps := by
  obtain ⟨names, hpieces, hnames⟩ := exists_pieces_join (p := p) h
  rw [steps, hpieces, List.filter_append, hnames]
  rfl

theorem isAbsolute_join (h : q.isAbsolute = false) : (p.join q).isAbsolute = p.isAbsolute := by
  have hhead (text : String) (hp : p.text ≠ "") :
      (⟨p.text ++ text⟩ : FilePath).isAbsolute = p.isAbsolute := by
    rw [isAbsolute, isAbsolute, String.toList_append, List.head?_append_of_ne_nil]
    rwa [ne_eq, String.toList_eq_nil_iff]
  rw [join, if_neg (by simp [h])]
  by_cases hp : p.text = ""
  · rw [if_pos (.inl hp), hp, String.empty_append, h, isAbsolute, hp]
    rfl
  · split
    · exact hhead q.text hp
    · rw [String.append_assoc]
      exact hhead _ hp

end FilePath

end LockDiscipline
