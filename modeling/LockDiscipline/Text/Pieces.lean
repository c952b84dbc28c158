/-!
Texts made of pieces: cutting at a separator, the outermost pieces, joining, and ASCII case.
Joining with the separator undoes cutting.
-/

namespace LockDiscipline.Text

/-- The runs between the occurrences of `sep`; there is always at least one. -/
def splitOn (sep : Char) : List Char → List (List Char)
  | [] => [[]]
  | c :: rest =>
    if c = sep then [] :: splitOn sep rest
    else match splitOn sep rest with
      | [] => [[c]]
      | run :: runs => (c :: run) :: runs

theorem splitOn_ne_nil (sep : Char) (cs : List Char) : splitOn sep cs ≠ [] := by
  cases cs with
  | nil => simp [splitOn]
  | cons c rest =>
    rw [splitOn]
    split
    · simp
    · split <;> simp

/-- Cutting loses nothing but the separators. -/
theorem intercalate_splitOn (sep : Char) (cs : List Char) :
    [sep].intercalate (splitOn sep cs) = cs := by
  induction cs with
  | nil => simp [splitOn, List.intercalate]
  | cons c rest ih =>
    have hne := splitOn_ne_nil sep rest
    rw [splitOn]
    generalize splitOn sep rest = runs at ih hne
    match runs, hne with
    | run :: [], _ =>
      split
      · next h => simp_all [List.intercalate]
      · simp_all [List.intercalate]
    | run :: second :: runs, _ =>
      split
      · next h => simp_all [List.intercalate]
      · simp_all [List.intercalate]

/-- Texts on both sides of a separator are cut apart from one another. -/
theorem splitOn_append (sep : Char) (cs rest : List Char) :
    splitOn sep (cs ++ sep :: rest) = splitOn sep cs ++ splitOn sep rest := by
  induction cs with
  | nil => simp [splitOn]
  | cons c cs ih =>
    have hne := splitOn_ne_nil sep cs
    rw [List.cons_append, splitOn, splitOn, ih]
    generalize splitOn sep cs = runs at hne
    match runs, hne with
    | run :: runs, _ => split <;> rfl

theorem splitOn_of_not_mem {sep : Char} {cs : List Char} (h : sep ∉ cs) :
    splitOn sep cs = [cs] := by
  induction cs with
  | nil => rfl
  | cons c rest ih =>
    obtain ⟨hc, hrest⟩ := not_or.1 (mt List.mem_cons.2 h)
    rw [splitOn, if_neg (Ne.symm hc), ih hrest]

theorem intercalate_append (sep : Char) {runs runs' : List (List Char)} (h : runs ≠ [])
    (h' : runs' ≠ []) : [sep].intercalate (runs ++ runs') =
      [sep].intercalate runs ++ sep :: [sep].intercalate runs' := by
  induction runs with
  | nil => exact absurd rfl h
  | cons run runs ih =>
    match runs, runs', ih, h' with
    | [], second :: runs', _, _ =>
      rw [List.singleton_append, List.intercalate_cons_cons, List.append_assoc]
      simp [List.intercalate]
    | second :: runs, runs', ih, _ =>
      rw [List.cons_append, List.cons_append, List.intercalate_cons_cons, ← List.cons_append,
        ih (List.cons_ne_nil _ _), List.intercalate_cons_cons, List.append_assoc (_ ++ _)]

/-- The runs of what is joined are the runs of the parts. -/
theorem splitOn_intercalate_eq_flatMap {sep : Char} {runs : List (List Char)} (hne : runs ≠ []) :
    splitOn sep ([sep].intercalate runs) = runs.flatMap (splitOn sep) := by
  induction runs with
  | nil => exact absurd rfl hne
  | cons run runs ih =>
    match runs, ih with
    | [], _ => simp [List.intercalate]
    | second :: runs, ih =>
      have hrest := ih (List.cons_ne_nil _ _)
      rw [List.intercalate_cons_cons, List.append_assoc, List.singleton_append, splitOn_append, hrest]
      rfl

/-- Cutting undoes joining, if no run has a separator. -/
theorem splitOn_intercalate {sep : Char} {runs : List (List Char)} (hne : runs ≠ [])
    (h : ∀ run ∈ runs, sep ∉ run) : splitOn sep ([sep].intercalate runs) = runs := by
  have hmap : runs.map (splitOn sep) = runs.map fun run => [run] :=
    List.map_congr_left fun run hrun => splitOn_of_not_mem (h run hrun)
  rw [splitOn_intercalate_eq_flatMap hne, List.flatMap_def, hmap, ← List.flatMap_def,
    List.flatMap_singleton']

theorem mem_iff_mem_splitOn {sep c : Char} (hc : c ≠ sep) {cs : List Char} :
    c ∈ cs ↔ ∃ run ∈ splitOn sep cs, c ∈ run := by
  induction cs with
  | nil => simp [splitOn]
  | cons a rest ih =>
    have hne := splitOn_ne_nil sep rest
    rw [List.mem_cons, ih, splitOn]
    generalize splitOn sep rest = runs at hne
    match runs, hne with
    | run :: runs, _ =>
      split
      · next ha => simp [ha, hc]
      · simp [or_assoc]

theorem not_mem_of_mem_splitOn {sep : Char} {run cs : List Char} (h : run ∈ splitOn sep cs) :
    sep ∉ run := by
  induction cs generalizing run with
  | nil => simp_all [splitOn]
  | cons c rest ih =>
    rw [splitOn] at h
    generalize splitOn sep rest = runs at h ih
    split at h
    · rcases List.mem_cons.1 h with rfl | h
      · exact List.not_mem_nil
      · exact ih h
    · next hc =>
      match runs with
      | [] => simp_all [eq_comm]
      | first :: others =>
        rcases List.mem_cons.1 h with rfl | h
        · simpa [Ne.symm hc] using ih (.head _)
        · exact ih (.tail _ h)

/-- The pieces of `s` between the occurrences of `sep`. -/
def pieces (sep : Char) (s : String) : List String :=
  (splitOn sep s.toList).map String.ofList

theorem pieces_ne_nil (sep : Char) (s : String) : pieces sep s ≠ [] := by
  simpa [pieces] using splitOn_ne_nil sep s.toList

theorem pieces_of_not_mem {sep : Char} {s : String} (h : sep ∉ s.toList) : pieces sep s = [s] := by
  simp [pieces, splitOn_of_not_mem h]

/-- The part of `s` after its last `sep`; all of `s` if it has none. -/
def lastPiece (sep : Char) (s : String) : String :=
  (pieces sep s).getLast?.getD s

theorem lastPiece_of_not_mem {sep : Char} {s : String} (h : sep ∉ s.toList) :
    lastPiece sep s = s := by
  simp [lastPiece, pieces_of_not_mem h]

/-- The part of `s` before its first `sep`; all of `s` if it has none. -/
def firstPiece (sep : Char) (s : String) : String :=
  (pieces sep s).head?.getD s

theorem firstPiece_of_not_mem {sep : Char} {s : String} (h : sep ∉ s.toList) :
    firstPiece sep s = s := by
  simp [firstPiece, pieces_of_not_mem h]

/-- What follows the first separator does not count. -/
theorem firstPiece_append_sep (sep : Char) (s t : String) :
    firstPiece sep (s ++ String.singleton sep ++ t) = firstPiece sep s := by
  have htext : (s ++ String.singleton sep ++ t).toList = s.toList ++ sep :: t.toList := by simp
  have hne := splitOn_ne_nil sep s.toList
  rw [firstPiece, firstPiece, pieces, pieces, htext, splitOn_append]
  generalize splitOn sep s.toList = runs at hne
  match runs, hne with
  | run :: runs, _ => rfl

theorem firstPiece_append {sep : Char} {s : String} (h : sep ∉ s.toList) (t : String) :
    firstPiece sep (s ++ String.singleton sep ++ t) = s := by
  rw [firstPiece_append_sep, firstPiece_of_not_mem h]

/-- The texts in order, with `sep` between neighbours. -/
def join (sep : String) (texts : List String) : String :=
  sep.intercalate texts

theorem pieces_join {sep : Char} {texts : List String} (hne : texts ≠ []) :
    pieces sep (join (String.singleton sep) texts) = texts.flatMap (pieces sep) := by
  have hruns : texts.map String.toList ≠ [] := by simpa using hne
  rw [pieces, join, String.toList_intercalate, String.toList_singleton,
    splitOn_intercalate_eq_flatMap hruns, List.flatMap_map, List.map_flatMap]
  rfl

theorem join_pieces (sep : Char) (s : String) : join (String.singleton sep) (pieces sep s) = s := by
  have hpieces : (pieces sep s).map String.toList = splitOn sep s.toList := by simp [pieces]
  rw [← String.toList_inj, join, String.toList_intercalate, hpieces, String.toList_singleton,
    intercalate_splitOn]

/-- ASCII letters in lower case; every other character stays. -/
def lower (s : String) : String :=
  s.map Char.toLower

/-- ASCII letters in upper case; every other character stays. -/
def upper (s : String) : String :=
  s.map Char.toUpper

end LockDiscipline.Text
