/-!
Closed ranges of code points, in which the tables of character properties are written.
-/

namespace LockDiscipline.Text

/-- The code points from `first` to `last`, both included. -/
structure CodeRange where
  first : Nat
  last : Nat
  deriving DecidableEq, Repr

namespace CodeRange

/-- Whether the code point of `c` lies in the range. -/
def contains (r : CodeRange) (c : Char) : Bool :=
  r.first ≤ c.toNat && c.toNat ≤ r.last

theorem contains_iff {r : CodeRange} {c : Char} :
    r.contains c = true ↔ r.first ≤ c.toNat ∧ c.toNat ≤ r.last := by
  simp [contains]

end CodeRange

/-- Whether some range of the table holds `c`. -/
def inTable (table : List CodeRange) (c : Char) : Bool :=
  table.any (·.contains c)

end LockDiscipline.Text
