import LockDiscipline.Text.Pieces

/-!
Paths of files as they are written: names with slashes between them. Nothing here looks at a disk,
so a path keeps its spelling, and the parent of a path is found in its text alone.
-/

namespace LockDiscipline

/-- A path as it is written. -/
structure FilePath where
  text : String
  deriving DecidableEq, Repr

namespace FilePath

/-- Whether the path starts at the root. -/
def isAbsolute (p : FilePath) : Bool := p.text.toList.head? = some '/'

/-- A name that leads nowhere: an empty one or a dot. -/
def isIdle (name : String) : Bool := name = "" || name = "."

/-- The names that lead anywhere. -/
def steps (p : FilePath) : List String := (Text.pieces '/' p.text).filter (!isIdle ·)

/-- The path `q` seen from the directory `p`. -/
def join (p q : FilePath) : FilePath :=
  if q.isAbsolute then q
  else if p.text = "" ∨ p.text.toList.getLast? = some '/' then ⟨p.text ++ q.text⟩
  else ⟨p.text ++ "/" ++ q.text⟩

/-- What stands before the names of a path: the root, a dot for the directory itself, or nothing. -/
def start : List Char → List Char
  | '/' :: _ => ['/']
  | '.' :: '/' :: _ => ['.']
  | ['.'] => ['.']
  | _ => []

/-- What paths are told apart by: how they start, and the names that lead anywhere. -/
def components (p : FilePath) : List String := String.ofList (start p.text.toList) :: p.steps

/-- The names without those at the end that lead nowhere: empty ones and dots. -/
def trimNames (names : List (List Char)) : List (List Char) :=
  (names.reverse.dropWhile fun name => name = [] || name = ['.']).reverse

/-- The path without its last name. The root has no parent, and neither has the empty path, which is
the parent of a path of one name. -/
def parent? (p : FilePath) : Option FilePath :=
  let cs := p.text.toList
  let start := start cs
  let names := trimNames (Text.splitOn '/' (cs.drop start.length))
  if names.isEmpty then
    if start = ['.'] then some ⟨""⟩ else none
  else some ⟨String.ofList (start ++ ['/'].intercalate (trimNames names.dropLast))⟩

/-- The path of `name` in the directory that the file at `p` is in. -/
def sibling (p name : FilePath) : FilePath :=
  match p.parent? with
  | some directory => directory.join name
  | none => name

theorem start_append (cs : List Char) : start cs ++ cs.drop (start cs).length = cs := by
  unfold start
  split <;> simp

private theorem length_intercalate_append (l r : List (List Char)) :
    (['/'].intercalate l).length ≤ (['/'].intercalate (l ++ r)).length := by
  induction l with
  | nil => simp [List.intercalate]
  | cons a rest ih =>
    match rest, ih with
    | [], _ => cases r <;> simp [List.intercalate]
    | b :: rest, ih => simpa [List.intercalate] using ih

private theorem length_intercalate_concat (l : List (List Char)) (x : List Char) :
    (['/'].intercalate l).length + x.length ≤ (['/'].intercalate (l ++ [x])).length := by
  induction l with
  | nil => simp [List.intercalate]
  | cons a rest ih =>
    match rest, ih with
    | [], _ => simp [List.intercalate]
    | b :: rest, ih =>
      simp only [List.intercalate, List.cons_append, List.intersperse_cons_cons, List.flatten_cons,
        List.length_append, List.length_cons, List.length_nil] at ih ⊢
      omega

private theorem trimNames_append (names : List (List Char)) :
    ∃ rest, trimNames names ++ rest = names := by
  have h := List.reverse_prefix.2
    (List.dropWhile_suffix (l := names.reverse) fun name => name = [] || name = ['.'])
  rw [List.reverse_reverse] at h
  exact h

private theorem last_trimNames_ne_nil {names l : List (List Char)} {x : List Char}
    (h : trimNames names = l ++ [x]) : x ≠ [] := by
  have h := congrArg List.reverse h
  simp only [trimNames, List.reverse_reverse, List.reverse_append, List.reverse_cons,
    List.reverse_nil, List.nil_append, List.cons_append] at h
  have := List.head?_dropWhile_not (fun name => name = [] || name = ['.']) names.reverse
  rw [h] at this
  simp only [List.head?_cons, Bool.or_eq_false_iff, decide_eq_false_iff_not] at this
  exact this.1

/-- The parent of a path is written with fewer characters. -/
theorem parent?_length {p q : FilePath} (h : p.parent? = some q) :
    q.text.length < p.text.length := by
  unfold parent? at h
  dsimp only at h
  have happ := congrArg List.length (start_append p.text.toList)
  simp only [List.length_append, String.length_toList] at happ
  generalize start p.text.toList = s at h happ
  have hcut := congrArg List.length
    (Text.intercalate_splitOn '/' (p.text.toList.drop s.length))
  generalize Text.splitOn '/' (p.text.toList.drop s.length) = names at h hcut
  split at h
  · split at h
    · next hs =>
      cases h
      subst hs
      simp only [List.length_cons, List.length_nil] at happ
      simp only [String.length_empty]
      omega
    · cases h
  · next hne =>
    cases h
    obtain ⟨rest, hrest⟩ := trimNames_append names
    obtain ⟨l, x, hlx⟩ : ∃ l x, trimNames names = l ++ [x] :=
      ⟨_, _, (List.dropLast_concat_getLast (by simpa using hne)).symm⟩
    obtain ⟨rest', hrest'⟩ := trimNames_append l
    have hx := List.length_pos_iff.2 (last_trimNames_ne_nil hlx)
    have h1 := length_intercalate_append (trimNames l) rest'
    have h2 := length_intercalate_concat l x
    have h3 := length_intercalate_append (l ++ [x]) rest
    rw [hrest'] at h1
    rw [← hlx, hrest] at h3
    rw [← hlx] at h2
    simp only [String.length_ofList, List.length_append, hlx, List.dropLast_concat]
    omega

/-- The path and the parents above it, the nearest first. -/
def ancestors (p : FilePath) : List FilePath :=
  match _h : p.parent? with
  | some q => p :: q.ancestors
  | none => [p]
termination_by p.text.length
decreasing_by exact parent?_length _h

end FilePath

end LockDiscipline
